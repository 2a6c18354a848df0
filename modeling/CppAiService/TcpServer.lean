import CppAiService.ConnectionLife
import CppAiService.MachineInt
import Mathlib.Logic.Function.Basic

namespace CppAiService

open Bytes

structure InetAddress where
  addr : UInt8 × UInt8 × UInt8 × UInt8
  port : UInt16

def InetAddress.toIp (address : InetAddress) : Bytes :=
  decimal address.addr.1.toNat ++ lit "." ++ decimal address.addr.2.1.toNat ++ lit "." ++
    decimal address.addr.2.2.1.toNat ++ lit "." ++ decimal address.addr.2.2.2.toNat

def InetAddress.toIpPort (address : InetAddress) : Bytes :=
  address.toIp ++ lit ":" ++ decimal address.port.toNat

namespace TcpServer

inductive LoopId
  | baseLoop_
  | loops_ (k : ℕ)
  deriving DecidableEq

/-- Connections go by the order in which they were accepted. -/
inductive Functor
  | connectEstablished (conn : ℕ)
  | removeConnectionInLoop (conn : ℕ)
  | connectDestroyed (conn : ℕ)
  deriving DecidableEq

inductive ActiveChannel
  | acceptChannel_
  | connection (conn : ℕ) (revents : Revents)

def ActiveChannel.conn? : ActiveChannel → Option ℕ
  | .acceptChannel_ => none
  | .connection conn _ => some conn

/-- Where a loop's thread is in its round; `handling` is inside of a channel's `handleEvent`, with
its write callback still to come. -/
inductive Round
  | poll
  | dispatch (activeChannels_ : List ActiveChannel)
  | handling (conn : ℕ) (write : Bool) (activeChannels_ : List ActiveChannel)
  | execute (functors : List Functor)

structure Loop where
  round : Round
  pendingFunctors_ : List Functor

def Loop.dispatching (loop : Loop) : Bool :=
  match loop.round with
  | .dispatch _ | .handling .. => true
  | .poll | .execute _ => false

inductive Milestone
  | connectEstablished
  | handleEvent
  | handleClose
  | removeConnectionInLoop
  | connectDestroyed (dispatching : Bool)
  deriving DecidableEq

structure Connection where
  name_ : Bytes
  loop_ : LoopId
  conn : TcpConnection
  log : List Milestone

end TcpServer

open TcpServer in
/-- A started server with its loops. `loops_` is the number of the thread pool's loops, and
`conns` holds every connection there ever was. -/
structure TcpServer where
  ipPort_ : Bytes
  name_ : Bytes
  writeCompleteCallback_ : Bool
  loops_ : ℕ
  next_ : ℕ
  nextConnId_ : ℤ
  connections_ : Map Bytes ℕ
  conns : List Connection
  loops : LoopId → Loop

namespace TcpServer

def start (listenAddr : InetAddress) (nameArg : Bytes) (writeCompleteCallback : Bool)
    (numThreads : ℕ) : TcpServer where
  ipPort_ := listenAddr.toIpPort
  name_ := nameArg
  writeCompleteCallback_ := writeCompleteCallback
  loops_ := numThreads
  next_ := 0
  nextConnId_ := 1
  connections_ := ∅
  conns := []
  loops := fun _ ↦ ⟨.poll, []⟩

inductive Action
  | poll (l : LoopId) (activeChannels_ : List ActiveChannel)
  | accept (accepted : Bool)
  | handleEvent (l : LoopId) (readResult : ReadResult)
  | finishEvent (l : LoopId) (writeResult : WriteResult)
  | swapFunctors (l : LoopId)
  | runFunctor (l : LoopId)
  | endRound (l : LoopId)
  | send (conn : ℕ) (buf : Bytes) (result : WriteResult)
  | shutdown (conn : ℕ)

variable (s : TcpServer)

def setLoop (l : LoopId) (loop : Loop) : TcpServer :=
  { s with loops := Function.update s.loops l loop }

def setRound (l : LoopId) (round : Round) : TcpServer :=
  s.setLoop l { s.loops l with round := round }

def queueInLoop (l : LoopId) (functor : Functor) : TcpServer :=
  s.setLoop l { s.loops l with pendingFunctors_ := (s.loops l).pendingFunctors_ ++ [functor] }

def setConn (i : ℕ) (c : Connection) : TcpServer := { s with conns := s.conns.set i c }

def getNextLoop : LoopId × TcpServer :=
  if s.loops_ = 0 then (.baseLoop_, s)
  else
    (.loops_ s.next_, { s with next_ := if s.loops_ ≤ s.next_ + 1 then 0 else s.next_ + 1 })

/-- `buf` has 64 bytes, of which the last is the NUL. -/
def connName (name ipPort : Bytes) (nextConnId : ℤ) : Bytes :=
  name ++ (lit "-" ++ ipPort ++ lit "#" ++ decimalInt nextConnId).take 63

def connectEstablished (i : ℕ) : Option TcpServer := do
  let c ← s.conns[i]?
  let conn ← c.conn.connectEstablished
  return s.setConn i { c with conn := conn, log := c.log ++ [.connectEstablished] }

def connectDestroyed (i : ℕ) : Option TcpServer := do
  let c ← s.conns[i]?
  let conn ← c.conn.connectDestroyed
  return s.setConn i { c with
    conn := conn
    log := c.log ++ [.connectDestroyed (s.loops c.loop_).dispatching] }

def removeConnectionInLoop (i : ℕ) : Option TcpServer := do
  let c ← s.conns[i]?
  let s := s.setConn i { c with log := c.log ++ [Milestone.removeConnectionInLoop] }
  return { s with connections_ := s.connections_.erase c.name_ }.queueInLoop c.loop_
    (.connectDestroyed i)

def call : Functor → Option TcpServer
  | .connectEstablished i => s.connectEstablished i
  | .removeConnectionInLoop i => s.removeConnectionInLoop i
  | .connectDestroyed i => s.connectDestroyed i

/-- `runInLoop`, called in the thread of the first loop. -/
def runInLoop (thread l : LoopId) (functor : Functor) : Option TcpServer :=
  if thread = l then s.call functor else some (s.queueInLoop l functor)

def newConnection : Option TcpServer :=
  let (ioLoop, s) := s.getNextLoop
  let conn : Connection := {
    name_ := connName s.name_ s.ipPort_ s.nextConnId_
    loop_ := ioLoop
    conn := .create s.writeCompleteCallback_ false (64 * 1024 * 1024)
    log := [] }
  { s with
    nextConnId_ := wrap32 (s.nextConnId_ + 1)
    connections_ := s.connections_.insert conn.name_ s.conns.length
    conns := s.conns ++ [conn] }.runInLoop .baseLoop_ ioLoop (.connectEstablished s.conns.length)

def removeConnection (thread : LoopId) (i : ℕ) : Option TcpServer :=
  s.runInLoop thread .baseLoop_ (.removeConnectionInLoop i)

/-- The read callback or the close callback of a connection's channel; `handleClose` ends with
the server's close callback. -/
def handleEvent (l : LoopId) (i : ℕ) (revents : Revents) (readResult : ReadResult) :
    Option TcpServer := do
  let c ← s.conns[i]?
  let conn ← c.conn.readStage revents readResult
  if TcpConnection.closes revents readResult then
    let log := c.log ++ [.handleEvent, .handleClose]
    (s.setConn i { c with conn := conn, log := log }).removeConnection l i
  else return s.setConn i { c with conn := conn, log := c.log ++ [.handleEvent] }

def finishEvent (i : ℕ) (write : Bool) (writeResult : WriteResult) : Option TcpServer := do
  let c ← s.conns[i]?
  let conn ← c.conn.writeStage write writeResult
  return s.setConn i { c with conn := conn }

/-- What the poller of a loop can report: each of the loop's channels at most once. -/
def reported (l : LoopId) (active : List ActiveChannel) : Bool :=
  decide (active.filterMap ActiveChannel.conn?).Nodup && active.all fun
    | .acceptChannel_ => l = .baseLoop_
    | .connection i revents => s.conns[i]?.any fun c ↦
      c.loop_ = l && revents.possible c.conn.interest

/-- Calls of `send` and `shutdown` come from the connection's own loop. -/
def step : Action → Option TcpServer
  | .poll l active =>
    match (s.loops l).round with
    | .poll => if s.reported l active then some (s.setRound l (.dispatch active)) else none
    | _ => none
  | .accept accepted =>
    match (s.loops .baseLoop_).round with
    | .dispatch (.acceptChannel_ :: active) =>
      let s := s.setRound .baseLoop_ (.dispatch active)
      if accepted then s.newConnection else some s
    | _ => none
  | .handleEvent l readResult =>
    match (s.loops l).round with
    | .dispatch (.connection i revents :: active) =>
      (s.setRound l (.handling i revents.write active)).handleEvent l i revents readResult
    | _ => none
  | .finishEvent l writeResult =>
    match (s.loops l).round with
    | .handling i write active =>
      (s.setRound l (.dispatch active)).finishEvent i write writeResult
    | _ => none
  | .swapFunctors l =>
    match (s.loops l).round with
    | .dispatch [] => some (s.setLoop l ⟨.execute (s.loops l).pendingFunctors_, []⟩)
    | _ => none
  | .runFunctor l =>
    match (s.loops l).round with
    | .execute (functor :: functors) => (s.setRound l (.execute functors)).call functor
    | _ => none
  | .endRound l =>
    match (s.loops l).round with
    | .execute [] => some (s.setRound l .poll)
    | _ => none
  | .send i buf result => do
    let c ← s.conns[i]?
    let conn ← c.conn.send buf result
    return s.setConn i { c with conn := conn }
  | .shutdown i => do
    let c ← s.conns[i]?
    return s.setConn i { c with conn := c.conn.shutdown }

end TcpServer

end CppAiService
