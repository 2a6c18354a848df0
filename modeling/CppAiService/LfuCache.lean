import CppAiService.Bytes
import CppAiService.Foundation.Run
import CppAiService.MachineInt

namespace CppAiService

structure Node (K V : Type) where
  freq : ℤ
  key : K
  value : V
  deriving Inhabited

/-- A `shared_ptr<Node>`, by the order of allocation. -/
abbrev NodePtr := ℕ

/-- The order in which a loop visits the nodes of an unordered map. -/
structure IterationOrder where
  arrange : List NodePtr → List NodePtr
  perm : ∀ ptrs, (arrange ptrs).Perm ptrs

def IterationOrder.stored : IterationOrder := ⟨id, fun ptrs ↦ .refl ptrs⟩

/-- The nodes live in a heap; a frequency list holds its real nodes from the head to
the tail, without the two sentinels. Values of type `int` are integers in its range. -/
structure KLfuCache (K V : Type) where
  capacity_ : ℤ
  minFreq_ : ℤ
  maxAverageNum_ : ℤ
  curAverageNum_ : ℤ
  curTotalNum_ : ℤ
  nodes : NodePtr → Node K V
  allocated : ℕ
  nodeMap_ : Map K NodePtr
  freqToFreqList_ : Map ℤ (List NodePtr)

namespace KLfuCache

def INT8_MAX : ℤ := 127

variable {K V : Type}

def create [Inhabited K] [Inhabited V] (capacity maxAverageNum : ℤ) : KLfuCache K V where
  capacity_ := capacity
  minFreq_ := INT8_MAX
  maxAverageNum_ := maxAverageNum
  curAverageNum_ := 0
  curTotalNum_ := 0
  nodes := fun _ ↦ default
  allocated := 0
  nodeMap_ := ∅
  freqToFreqList_ := ∅

def size (c : KLfuCache K V) : ℕ := c.nodeMap_.keys.length

def ptrs (c : KLfuCache K V) : List NodePtr := c.nodeMap_.entries.map Sigma.snd

def freq (c : KLfuCache K V) (node : NodePtr) : ℤ := (c.nodes node).freq

def setFreq (c : KLfuCache K V) (node : NodePtr) (freq : ℤ) : KLfuCache K V :=
  { c with nodes := Function.update c.nodes node { c.nodes node with freq := freq } }

def setValue (c : KLfuCache K V) (node : NodePtr) (value : V) : KLfuCache K V :=
  { c with nodes := Function.update c.nodes node { c.nodes node with value := value } }

/-- `none` in this and the following functions is the dereference of the null list
that `operator[]` makes for an absent frequency. -/
def removeFromFreqList (c : KLfuCache K V) (node : NodePtr) : Option (KLfuCache K V) := do
  let list ← c.freqToFreqList_.lookup (c.freq node)
  return { c with freqToFreqList_ := c.freqToFreqList_.insert (c.freq node) (list.erase node) }

def addToFreqList (c : KLfuCache K V) (node : NodePtr) : KLfuCache K V :=
  let list := (c.freqToFreqList_.lookup (c.freq node)).getD []
  { c with freqToFreqList_ := c.freqToFreqList_.insert (c.freq node) (list ++ [node]) }

def average (c : KLfuCache K V) : ℤ :=
  if c.size = 0 then 0 else intOfSizeT (sizeTOfInt c.curTotalNum_ / c.size)

def decreaseFreqNum (c : KLfuCache K V) (num : ℤ) : KLfuCache K V :=
  let c := { c with curTotalNum_ := wrap32 (c.curTotalNum_ - num) }
  { c with curAverageNum_ := c.average }

def updateMinFreq (c : KLfuCache K V) : KLfuCache K V :=
  let least := c.freqToFreqList_.entries.foldl
    (fun least entry ↦ if entry.2.isEmpty then least else min least entry.1) INT8_MAX
  { c with minFreq_ := if least = INT8_MAX then 1 else least }

def ageNode (c : KLfuCache K V) (node : NodePtr) : Option (KLfuCache K V) := do
  let c ← c.removeFromFreqList node
  let freq := wrap32 (c.freq node - c.maxAverageNum_.tdiv 2)
  return (c.setFreq node (if freq < 1 then 1 else freq)).addToFreqList node

def handleOverMaxAverageNum (c : KLfuCache K V) (order : IterationOrder) :
    Option (KLfuCache K V) :=
  if c.size = 0 then some c
  else do
    let c ← Foundation.Run.run ageNode c (order.arrange c.ptrs)
    return c.updateMinFreq

def addFreqNum (c : KLfuCache K V) (order : IterationOrder) : Option (KLfuCache K V) :=
  let c := { c with curTotalNum_ := wrap32 (c.curTotalNum_ + 1) }
  let c := { c with curAverageNum_ := c.average }
  if c.maxAverageNum_ < c.curAverageNum_ then c.handleOverMaxAverageNum order else some c

/-- The list just left is looked at only when it is the one of `minFreq_`. -/
def advanceMinFreq (c : KLfuCache K V) (node : NodePtr) : Option (KLfuCache K V) :=
  if wrap32 (c.freq node - 1) = c.minFreq_ then do
    let list ← c.freqToFreqList_.lookup (wrap32 (c.freq node - 1))
    return if list.isEmpty then { c with minFreq_ := wrap32 (c.minFreq_ + 1) } else c
  else some c

def getInternal (c : KLfuCache K V) (node : NodePtr) (order : IterationOrder) :
    Option (V × KLfuCache K V) := do
  let value := (c.nodes node).value
  let c ← c.removeFromFreqList node
  let c := (c.setFreq node (wrap32 (c.freq node + 1))).addToFreqList node
  let c ← c.advanceMinFreq node
  let c ← c.addFreqNum order
  return (value, c)

variable [DecidableEq K] [Inhabited K]

/-- On an empty list the first node is the tail sentinel: it has the default key and
frequency one, and `removeNode` leaves it alone. -/
def kickOut (c : KLfuCache K V) : Option (KLfuCache K V) := do
  let list ← c.freqToFreqList_.lookup c.minFreq_
  match list with
  | node :: _ =>
    let c ← c.removeFromFreqList node
    return { c with nodeMap_ := c.nodeMap_.erase (c.nodes node).key }.decreaseFreqNum (c.freq node)
  | [] =>
    let _ ← c.freqToFreqList_.lookup 1
    return { c with nodeMap_ := c.nodeMap_.erase default }.decreaseFreqNum 1

def makeRoom (c : KLfuCache K V) : Option (KLfuCache K V) :=
  if (c.size : ℤ) = c.capacity_ then c.kickOut else some c

def insertNode (c : KLfuCache K V) (key : K) (value : V) : KLfuCache K V :=
  let c := { c with
    nodes := Function.update c.nodes c.allocated ⟨1, key, value⟩
    nodeMap_ := c.nodeMap_.insert key c.allocated }
  { c.addToFreqList c.allocated with allocated := c.allocated + 1 }

def putInternal (c : KLfuCache K V) (key : K) (value : V) (order : IterationOrder) :
    Option (KLfuCache K V) := do
  let c ← c.makeRoom
  let c ← (c.insertNode key value).addFreqNum order
  return { c with minFreq_ := min c.minFreq_ 1 }

def put (c : KLfuCache K V) (key : K) (value : V) (order : IterationOrder) :
    Option (KLfuCache K V) :=
  if c.capacity_ = 0 then some c
  else
    match c.nodeMap_.lookup key with
    | some node => ((c.setValue node value).getInternal node order).map Prod.snd
    | none => c.putInternal key value order

def get (c : KLfuCache K V) (key : K) (order : IterationOrder) :
    Option (Option V × KLfuCache K V) :=
  match c.nodeMap_.lookup key with
  | some node => (c.getInternal node order).map fun (value, c) ↦ (some value, c)
  | none => some (none, c)

omit [DecidableEq K] [Inhabited K] in
def purge (c : KLfuCache K V) : KLfuCache K V := { c with nodeMap_ := ∅, freqToFreqList_ := ∅ }

inductive Op (K V : Type)
  | put (key : K) (value : V) (order : IterationOrder)
  | get (key : K) (order : IterationOrder)
  | purge

def step (c : KLfuCache K V) : Op K V → Option (KLfuCache K V)
  | .put key value order => c.put key value order
  | .get key order => (c.get key order).map Prod.snd
  | .purge => some c.purge

abbrev run (c : KLfuCache K V) (ops : List (Op K V)) : Option (KLfuCache K V) :=
  Foundation.Run.run step c ops

end KLfuCache

end CppAiService
