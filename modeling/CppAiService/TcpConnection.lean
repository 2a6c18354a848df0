import CppAiService.Buffer
import CppAiService.Channel

namespace CppAiService

inductive StateE
  | kDisconnected
  | kConnecting
  | kConnected
  | kDisconnecting
  deriving DecidableEq

/-- How the kernel answers a `write`: it accepts up to so many bytes, or fails with
`EWOULDBLOCK`, with `EPIPE` or `ECONNRESET`, or otherwise. -/
inductive WriteResult
  | accepted (n : ℕ)
  | wouldBlock
  | peerGone
  | failed
  deriving DecidableEq

/-- How the kernel answers a `readv`; no bytes are the end of the stream. -/
inductive ReadResult
  | read (bytes : Bytes)
  | failed

/-- What a connection does to the outside, in the order in which it does it. The two
callbacks about the output side are queued, the others run at once. -/
inductive Effect
  | wrote (bytes : Bytes)
  | shutdownWrite
  | epoll (operation : EpollCtl)
  | writeComplete
  | highWaterMark (bytes : ℕ)
  | closing
  | connectionCallback (connected : Bool)
  | closeCallback
  deriving DecidableEq

/-- A connection with the entry of its socket in the interest list and its effects so far.
The callbacks of the output side can be unset. -/
structure TcpConnection where
  state_ : StateE
  channel_ : Channel
  inputBuffer_ : Buffer
  outputBuffer_ : Buffer
  writeCompleteCallback_ : Bool
  highWaterMarkCallback_ : Bool
  highWaterMark_ : ℕ
  interest : Option Events
  trace : List Effect

namespace TcpConnection

def create (writeCompleteCallback highWaterMarkCallback : Bool) (highWaterMark : ℕ) :
    TcpConnection where
  state_ := .kConnecting
  channel_ := .create
  inputBuffer_ := .create kInitialSize
  outputBuffer_ := .create kInitialSize
  writeCompleteCallback_ := writeCompleteCallback
  highWaterMarkCallback_ := highWaterMarkCallback
  highWaterMark_ := highWaterMark
  interest := none
  trace := []

variable (c : TcpConnection)

def emit (e : Effect) : TcpConnection := { c with trace := c.trace ++ [e] }

def emitIf (p : Prop) [Decidable p] (e : Effect) : TcpConnection :=
  { c with trace := if p then c.trace ++ [e] else c.trace }

theorem emitIf_eq (p : Prop) [Decidable p] (e : Effect) :
    c.emitIf p e = c.emit e ∨ c.emitIf p e = c := by
  by_cases hp : p
  · exact .inl (by rw [emitIf, if_pos hp, emit])
  · exact .inr (by rw [emitIf, if_neg hp])

def connected : Bool := c.state_ = .kConnected

def setState (state : StateE) : TcpConnection := { c with state_ := state }

def registration : EPollPoller.Registration := ⟨c.channel_, c.interest, []⟩

def registered (r : EPollPoller.Registration) : TcpConnection :=
  { c with
    channel_ := r.channel
    interest := r.interest
    trace := c.trace ++ r.calls.map .epoll }

/-- The channel asks for other events. `none` is the end of the process. -/
def setEvents (events : Events) : Option TcpConnection :=
  (EPollPoller.updateChannel
    { c.registration with channel := { c.channel_ with events_ := events } }).map c.registered

def enableReading : Option TcpConnection := c.setEvents { c.channel_.events_ with read := true }

def enableWriting : Option TcpConnection := c.setEvents { c.channel_.events_ with write := true }

def disableWriting : Option TcpConnection := c.setEvents { c.channel_.events_ with write := false }

def disableAll : Option TcpConnection := c.setEvents kNoneEvent

def removeChannel : Option TcpConnection :=
  (EPollPoller.removeChannel c.registration).map c.registered

/-- The direct write of `sendInLoop`, with the number of bytes written and whether the
peer is gone. -/
def writeDirectly (data : Bytes) : WriteResult → TcpConnection × ℕ × Bool
  | .accepted n =>
    let nwrote := min n data.length
    let c := c.emit (.wrote (data.take nwrote))
    (c.emitIf (nwrote = data.length ∧ c.writeCompleteCallback_ = true) .writeComplete, nwrote,
      false)
  | .wouldBlock | .failed => (c, 0, false)
  | .peerGone => (c, 0, true)

def checkHighWaterMark (remaining : ℕ) : TcpConnection :=
  let oldLen := c.outputBuffer_.readableBytes
  c.emitIf (c.highWaterMark_ ≤ oldLen + remaining ∧ oldLen < c.highWaterMark_ ∧
    c.highWaterMarkCallback_ = true) (.highWaterMark (oldLen + remaining))

def keepUnsent (rest : Bytes) : Option TcpConnection :=
  let c := c.checkHighWaterMark rest.length
  let c := { c with outputBuffer_ := c.outputBuffer_.append rest }
  if c.channel_.isWriting then some c else c.enableWriting

/-- A closed connection is only logged, and the function goes on. -/
def sendInLoop (data : Bytes) (result : WriteResult) : Option TcpConnection :=
  let (c, nwrote, faultError) :=
    if c.channel_.isWriting = false ∧ c.outputBuffer_.readableBytes = 0 then
      c.writeDirectly data result
    else (c, 0, false)
  if faultError = false ∧ 0 < data.length - nwrote then c.keepUnsent (data.drop nwrote) else some c

variable {c} in
theorem sendInLoop_peerGone
    (hdirect : c.channel_.isWriting = false ∧ c.outputBuffer_.readableBytes = 0) (data : Bytes) :
    c.sendInLoop data .peerGone = some c := by
  simp only [sendInLoop, if_pos hdirect, writeDirectly, reduceCtorEq, false_and, if_false]

def send (buf : Bytes) (result : WriteResult) : Option TcpConnection :=
  if c.connected then c.sendInLoop buf result else some c

def shutdownInLoop : TcpConnection :=
  if c.channel_.isWriting then c else c.emit .shutdownWrite

def shutdown : TcpConnection :=
  if c.connected then (c.setState .kDisconnecting).shutdownInLoop else c

theorem shutdown_connected : c.shutdown.connected = false := by
  rw [shutdown]
  split
  · rw [shutdownInLoop]
    split <;> rfl
  · next h => exact Bool.not_eq_true _ ▸ h

theorem shutdown_inputBuffer : c.shutdown.inputBuffer_ = c.inputBuffer_ := by
  rw [shutdown]
  split
  · rw [shutdownInLoop]
    split <;> rfl
  · rfl

def drained : Option TcpConnection := do
  let c ← c.disableWriting
  let c := c.emitIf (c.writeCompleteCallback_ = true) .writeComplete
  return if c.state_ = .kDisconnecting then c.shutdownInLoop else c

def retrieveWritten (n : ℕ) : TcpConnection :=
  { c.emit (.wrote (c.outputBuffer_.peek n)) with outputBuffer_ := c.outputBuffer_.retrieve n }

def handleWrite (result : WriteResult) : Option TcpConnection :=
  if c.channel_.isWriting then
    match result with
    | .accepted n =>
      let n := min n c.outputBuffer_.readableBytes
      let written := c.retrieveWritten n
      if n = 0 then some c
      else if written.outputBuffer_.readableBytes = 0 then written.drained
      else some written
    | .wouldBlock | .peerGone | .failed => some c
  else some c

def connectEstablished : Option TcpConnection := do
  let c ← (c.setState .kConnected).enableReading
  return c.emit (.connectionCallback c.connected)

def established (writeCompleteCallback highWaterMarkCallback : Bool) (highWaterMark : ℕ) :
    TcpConnection :=
  { create writeCompleteCallback highWaterMarkCallback highWaterMark with
    state_ := .kConnected
    channel_ := ⟨⟨true, false⟩, .kAdded⟩
    interest := some ⟨true, false⟩
    trace := [.epoll (.add ⟨true, false⟩), .connectionCallback true] }

theorem connectEstablished_create (writeCompleteCallback highWaterMarkCallback : Bool)
    (highWaterMark : ℕ) :
    (create writeCompleteCallback highWaterMarkCallback highWaterMark).connectEstablished =
      some (established writeCompleteCallback highWaterMarkCallback highWaterMark) := rfl

def connectDestroyed : Option TcpConnection := do
  let c ← if c.connected then do
      let c ← (c.setState .kDisconnected).disableAll
      pure (c.emit (.connectionCallback c.connected))
    else pure c
  c.removeChannel

def handleClose : Option TcpConnection := do
  let c ← ((c.emit .closing).setState .kDisconnected).disableAll
  let c := c.emit (.connectionCallback c.connected)
  return c.emit .closeCallback

def writeStage (write : Bool) (result : WriteResult) : Option TcpConnection :=
  if write then c.handleWrite result else some c

section Events

variable {σ : Type} (messageCallback : TcpConnection → σ → Option (TcpConnection × σ))

def handleRead (s : σ) : ReadResult → Option (TcpConnection × σ)
  | .read bytes =>
    let c := { c with inputBuffer_ := c.inputBuffer_.readFd bytes }
    if bytes ≠ [] then messageCallback c s else c.handleClose.map (·, s)
  | .failed => some (c, s)

/-- `Channel::handleEventWithGuard`; `handleError` only logs. -/
def handleEvent (s : σ) (revents : Revents) (readResult : ReadResult) (writeResult : WriteResult) :
    Option (TcpConnection × σ) := do
  let c ← if revents.hangup && !revents.read then c.handleClose else pure c
  let (c, s) ← if revents.read then c.handleRead messageCallback s readResult else pure (c, s)
  let c ← if revents.write then c.handleWrite writeResult else pure c
  return (c, s)

theorem handleEvent_eq (s : σ) (revents : Revents) (readResult : ReadResult)
    (writeResult : WriteResult) :
    c.handleEvent messageCallback s revents readResult writeResult =
      (if revents.read then c.handleRead messageCallback s readResult
        else if revents.hangup then c.handleClose.map (·, s) else some (c, s)).bind fun w ↦
          (w.1.writeStage revents.write writeResult).map (·, w.2) := by
  have hwrite : ∀ (d : TcpConnection) (t : σ),
      (if revents.write then (d.handleWrite writeResult).bind fun d ↦ some (d, t)
        else some (d, t)) = (d.writeStage revents.write writeResult).map (·, t) := by
    intro d t
    rw [Option.map_eq_bind]
    cases revents.write with
    | false => rfl
    | true => rfl
  cases hread : revents.read with
  | true =>
    simp only [handleEvent, hread, Bool.not_true, Bool.and_false, Bool.false_eq_true, if_false,
      if_true, Option.bind_eq_bind, Option.pure_def, Option.bind_some, hwrite]
  | false =>
    cases hhangup : revents.hangup with
    | true =>
      simp only [handleEvent, hread, hhangup, Bool.not_false, Bool.and_true, Bool.false_eq_true,
        if_false, if_true, Option.bind_eq_bind, Option.pure_def, Option.bind_some, hwrite,
        Option.bind_map, Function.comp_def]
    | false =>
      simp only [handleEvent, hread, hhangup, Bool.not_false, Bool.and_true, Bool.false_eq_true,
        if_false, Option.bind_eq_bind, Option.pure_def, Option.bind_some, hwrite]

end Events

end TcpConnection

end CppAiService
