import CppAiService.Foundation.Run
import CppAiService.TcpConnection
import Mathlib.Logic.Function.Basic

namespace CppAiService.CrossThread

structure Text where
  block : Bytes
  size : ℕ
  size_le : size ≤ block.length

def Text.contents (text : Text) : Bytes := text.block.take text.size

/-- A call of another thread that has passed its test of the state. `send` still refers to
its argument; `sent` is what the string was when the call began. -/
inductive Call
  | send (buf : ℕ) (sent : Bytes)
  | shutdownTested
  | shutdownSet

/-- What other threads queue. `std::bind` has captured the pointer and the length; `sent`
is not part of the task. -/
inductive Functor
  | sendInLoop (data len : ℕ) (sent : Bytes)
  | shutdownInLoop
  | connectDestroyed

inductive LoopCall
  | retrieveAll
  | send (buf : Bytes) (result : WriteResult)
  | shutdown

/-- One connection, its loop's two lists of functors, the calls that are under way and the
memory of the callers. Somebody keeps the connection alive. `handed` lists what each queued
`sendInLoop` was meant to get, and what it got. -/
structure World where
  conn : TcpConnection
  functors : List Functor
  pendingFunctors_ : List Functor
  calls : List Call
  memory : ℕ → Option Text
  handed : List (Bytes × Bytes)

inductive Action
  | store (address : ℕ) (text : Text)
  | release (address : ℕ)
  | callSend (address : ℕ)
  | callShutdown
  | continueCall (i : ℕ)
  | queueDestroyed
  | swapFunctors
  | runFunctor (result : WriteResult)
  | event (revents : Revents) (readResult : ReadResult) (calls : List LoopCall)
      (writeResult : WriteResult)

def LoopCall.apply (c : TcpConnection) : LoopCall → Option TcpConnection
  | .retrieveAll => some { c with inputBuffer_ := c.inputBuffer_.retrieveAllAsString.2 }
  | .send buf result => c.send buf result
  | .shutdown => some c.shutdown

def messageCallback (calls : List LoopCall) (c : TcpConnection) (_ : Unit) :
    Option (TcpConnection × Unit) :=
  (Foundation.Run.run LoopCall.apply c calls).map (·, ())

def Call.Uses (address : ℕ) : Call → Prop
  | .send buf _ => buf = address
  | _ => False

instance (address : ℕ) : DecidablePred (Call.Uses address)
  | .send buf _ => inferInstanceAs (Decidable (buf = address))
  | .shutdownTested | .shutdownSet => inferInstanceAs (Decidable False)

namespace World

variable (w : World)

/-- Nobody changes a string while a call that was given it is under way. -/
def setMemory (address : ℕ) (text : Option Text) : Option World :=
  if ∃ call ∈ w.calls, call.Uses address then none
  else some { w with memory := Function.update w.memory address text }

def queue (functor : Functor) : World :=
  { w with pendingFunctors_ := w.pendingFunctors_ ++ [functor] }

/-- The next step of a call: `send` binds and queues its task; `shutdown` sets the state,
and then queues its own. -/
def continueCall (i : ℕ) : Option World :=
  match w.calls[i]? with
  | none => none
  | some (.send buf sent) =>
    (w.memory buf).map fun text ↦
      { w with calls := w.calls.eraseIdx i }.queue (.sendInLoop buf text.size sent)
  | some .shutdownTested =>
    some { w with
      conn := w.conn.setState .kDisconnecting
      calls := w.calls.set i .shutdownSet }
  | some .shutdownSet => some ({ w with calls := w.calls.eraseIdx i }.queue .shutdownInLoop)

/-- Reading freed memory, or past the end of a block, is undefined. -/
def runFunctor (result : WriteResult) : Option World :=
  match w.functors with
  | [] => none
  | .sendInLoop data len sent :: rest => do
    let text ← w.memory data
    if len ≤ text.block.length then
      let conn ← w.conn.sendInLoop (text.block.take len) result
      return { w with
        conn := conn
        functors := rest
        handed := w.handed ++ [(sent, text.block.take len)] }
    else none
  | .shutdownInLoop :: rest => some { w with conn := w.conn.shutdownInLoop, functors := rest }
  | .connectDestroyed :: rest =>
    w.conn.connectDestroyed.map fun conn ↦ { w with conn := conn, functors := rest }

/-- Events are dispatched between two rounds of functors. `connectDestroyed` is queued by the
main loop, after the close callback or when the server goes away. -/
def step : Action → Option World
  | .store address text => w.setMemory address (some text)
  | .release address => w.setMemory address none
  | .callSend address =>
    (w.memory address).map fun text ↦
      if w.conn.connected then { w with calls := w.calls ++ [.send address text.contents] } else w
  | .callShutdown =>
    some (if w.conn.connected then { w with calls := w.calls ++ [.shutdownTested] } else w)
  | .continueCall i => w.continueCall i
  | .queueDestroyed => some (w.queue .connectDestroyed)
  | .swapFunctors =>
    if w.functors.isEmpty then
      some { w with functors := w.pendingFunctors_, pendingFunctors_ := [] }
    else none
  | .runFunctor result => w.runFunctor result
  | .event revents readResult calls writeResult =>
    if w.functors.isEmpty && revents.possible w.conn.interest then
      (w.conn.handleEvent (messageCallback calls) () revents readResult writeResult).map
        fun (conn, _) ↦ { w with conn := conn }
    else none

end World

def start (conn : TcpConnection) (memory : ℕ → Option Text) : World where
  conn := conn
  functors := []
  pendingFunctors_ := []
  calls := []
  memory := memory
  handed := []

def callerMemory (address : ℕ) : Option Text :=
  if address = 0 then some ⟨lit "hello", 5, by decide⟩ else none

end CppAiService.CrossThread
