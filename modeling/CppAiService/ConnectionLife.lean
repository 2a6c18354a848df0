import CppAiService.ClosedConnection
import CppAiService.OutputStream

namespace CppAiService

def Effect.milestone : Effect → Bool
  | .closing | .connectionCallback _ | .closeCallback => true
  | .wrote _ | .shutdownWrite | .epoll _ | .writeComplete | .highWaterMark _ => false

def milestones (trace : List Effect) : List Effect := trace.filter Effect.milestone

theorem milestones_append (trace trace' : List Effect) :
    milestones (trace ++ trace') = milestones trace ++ milestones trace' := List.filter_append ..

namespace TcpConnection

def closes (revents : Revents) (readResult : ReadResult) : Bool :=
  if revents.read then
    match readResult with
    | .read bytes => bytes.isEmpty
    | .failed => false
  else revents.hangup

def readStage (c : TcpConnection) (revents : Revents) (readResult : ReadResult) :
    Option TcpConnection :=
  if revents.read then (c.handleRead (fun c s ↦ some (c, s)) () readResult).map Prod.fst
  else if revents.hangup then c.handleClose
  else some c

/-- `handleEvent` is the reading stage, the message callback where it is run, and the writing
stage. -/
theorem handleEvent_stages {σ : Type} (c : TcpConnection)
    (messageCallback : TcpConnection → σ → Option (TcpConnection × σ)) (s : σ) (revents : Revents)
    (readResult : ReadResult) (writeResult : WriteResult) :
    c.handleEvent messageCallback s revents readResult writeResult =
      (c.readStage revents readResult).bind fun d ↦
        (match revents.read, readResult with
          | true, .read (_ :: _) => messageCallback d s
          | _, _ => some (d, s)).bind fun w ↦
          (w.1.writeStage revents.write writeResult).map (·, w.2) := by
  rw [handleEvent_eq, readStage]
  cases revents.read with
  | false =>
    cases revents.hangup with
    | false => rfl
    | true =>
      simp only [Bool.false_eq_true, if_false, if_true, Option.bind_map, Function.comp_def,
        Option.bind_some]
  | true =>
    cases readResult with
    | failed => rfl
    | read bytes =>
      cases bytes with
      | nil =>
        simp only [handleRead, if_true, ne_eq, not_true_eq_false, if_false, Option.map_map,
          Option.bind_map, Function.comp_def, Option.bind_some]
      | cons b bytes => rfl

/-- A condition that calls of the user and write events cannot break. -/
structure Kept (P : TcpConnection → Prop) : Prop where
  emit : ∀ {c e}, P c → e.milestone = false → P (c.emit e)
  outputBuffer_ : ∀ {c} buffer, P c → P { c with outputBuffer_ := buffer }
  setWriting : ∀ {c} write, P c →
    ∃ d, c.setEvents { c.channel_.events_ with write := write } = some d ∧ P d
  disconnect : ∀ {c}, P c → c.connected = true → P (c.setState .kDisconnecting)

section Kept

variable {P : TcpConnection → Prop} {c : TcpConnection}

theorem Kept.emitIf (hP : Kept P) (h : P c) (p : Prop) [Decidable p] {e : Effect}
    (he : e.milestone = false) : P (c.emitIf p e) := by
  obtain heq | heq := c.emitIf_eq p e
  · exact heq ▸ hP.emit h he
  · exact heq.symm ▸ h

theorem Kept.writeDirectly (hP : Kept P) (h : P c) (data : Bytes) (result : WriteResult) :
    P (c.writeDirectly data result).1 := by
  cases result with
  | accepted n => exact hP.emitIf (hP.emit h rfl) _ rfl
  | wouldBlock => exact h
  | peerGone => exact h
  | failed => exact h

theorem Kept.keepUnsent (hP : Kept P) (h : P c) (rest : Bytes) :
    ∃ d, c.keepUnsent rest = some d ∧ P d := by
  have happended := hP.outputBuffer_ (c.outputBuffer_.append rest)
    (hP.emitIf h (c.highWaterMark_ ≤ c.outputBuffer_.readableBytes + rest.length ∧
      c.outputBuffer_.readableBytes < c.highWaterMark_ ∧ c.highWaterMarkCallback_ = true)
      (e := .highWaterMark (c.outputBuffer_.readableBytes + rest.length)) rfl)
  simp only [TcpConnection.keepUnsent]
  split
  · exact ⟨_, rfl, happended⟩
  · exact hP.setWriting true happended

theorem Kept.sendInLoop (hP : Kept P) (h : P c) (data : Bytes) (result : WriteResult) :
    ∃ d, c.sendInLoop data result = some d ∧ P d := by
  rw [TcpConnection.sendInLoop]
  split
  next d nwrote faultError hwrite =>
  have hd : P d := by
    split at hwrite
    · have hwritten := hP.writeDirectly h data result
      rwa [hwrite] at hwritten
    · cases hwrite
      exact h
  split
  · exact hP.keepUnsent hd _
  · exact ⟨d, rfl, hd⟩

theorem Kept.send (hP : Kept P) (h : P c) (buf : Bytes) (result : WriteResult) :
    ∃ d, c.send buf result = some d ∧ P d := by
  rw [TcpConnection.send]
  split
  · exact hP.sendInLoop h buf result
  · exact ⟨c, rfl, h⟩

theorem Kept.shutdownInLoop (hP : Kept P) (h : P c) : P c.shutdownInLoop := by
  rw [TcpConnection.shutdownInLoop]
  split
  · exact h
  · exact hP.emit h rfl

theorem Kept.shutdown (hP : Kept P) (h : P c) : P c.shutdown := by
  rw [TcpConnection.shutdown]
  split
  · next hc => exact hP.shutdownInLoop (hP.disconnect h hc)
  · exact h

theorem Kept.drained (hP : Kept P) (h : P c) : ∃ d, c.drained = some d ∧ P d := by
  obtain ⟨d, hd, hwriting⟩ := hP.setWriting false h
  have hcomplete := hP.emitIf hwriting (d.writeCompleteCallback_ = true) (e := .writeComplete) rfl
  simp only [TcpConnection.drained, disableWriting, hd, Option.bind_eq_bind, Option.bind_some]
  refine ⟨_, rfl, ?_⟩
  split
  · exact hP.shutdownInLoop hcomplete
  · exact hcomplete

theorem Kept.handleWrite (hP : Kept P) (h : P c) (result : WriteResult) :
    ∃ d, c.handleWrite result = some d ∧ P d := by
  unfold TcpConnection.handleWrite
  split
  · cases result with
    | accepted n =>
      dsimp only
      generalize min n c.outputBuffer_.readableBytes = n
      have hretrieved : P (c.retrieveWritten n) := hP.outputBuffer_ _ (hP.emit h rfl)
      split_ifs
      · exact ⟨c, rfl, h⟩
      · exact hP.drained hretrieved
      · exact ⟨_, rfl, hretrieved⟩
    | wouldBlock => exact ⟨c, rfl, h⟩
    | peerGone => exact ⟨c, rfl, h⟩
    | failed => exact ⟨c, rfl, h⟩
  · exact ⟨c, rfl, h⟩

theorem Kept.writeStage (hP : Kept P) (h : P c) (write : Bool) (result : WriteResult) :
    ∃ d, c.writeStage write result = some d ∧ P d := by
  rw [TcpConnection.writeStage]
  split
  · exact hP.handleWrite h result
  · exact ⟨c, rfl, h⟩

end Kept

/-- Established and not yet down: the channel is watched for reading. -/
structure Up (c : TcpConnection) : Prop extends Watched c where
  reading : c.channel_.events_.read = true
  state : c.state_ = .kConnected ∨ c.state_ = .kDisconnecting
  milestones : milestones c.trace = [.connectionCallback true]

/-- Down, with this reported: the channel is not watched, and nothing will be written. -/
structure Down (reported : List Effect) (c : TcpConnection) : Prop where
  index_ne : c.channel_.index_ ≠ .kAdded
  interest : c.interest = none
  notWriting : c.channel_.isWriting = false
  state : c.state_ = .kDisconnected
  milestones : milestones c.trace = reported

variable {c : TcpConnection} {reported : List Effect}

theorem milestones_emit {e : Effect} (he : e.milestone = false) :
    CppAiService.milestones (c.emit e).trace = CppAiService.milestones c.trace := by
  have hnone : CppAiService.milestones [e] = [] :=
    List.filter_cons_of_neg (by rw [he]; exact Bool.false_ne_true)
  rw [emit, milestones_append, hnone, List.append_nil]

theorem up_kept : Kept Up where
  emit h he := ⟨⟨h.added, h.interest⟩, h.reading, h.state, (milestones_emit he).trans h.milestones⟩
  outputBuffer_ _ h := ⟨⟨h.added, h.interest⟩, h.reading, h.state, h.milestones⟩
  setWriting write h := by
    have hne : ∀ events : Events, events.read = true → events ≠ kNoneEvent := by
      rintro events hread rfl
      cases hread
    refine ⟨_, h.setEvents (hne _ h.reading), ⟨rfl, rfl⟩, h.reading, h.state, ?_⟩
    exact (milestones_emit rfl).trans h.milestones
  disconnect h _ := ⟨⟨h.added, h.interest⟩, h.reading, .inr rfl, h.milestones⟩

theorem up_established (writeComplete highWater : Bool) (mark : ℕ) :
    (established writeComplete highWater mark).Up :=
  ⟨⟨rfl, rfl⟩, rfl, .inl rfl, rfl⟩

theorem Up.consistent (h : c.Up) : c.registration.Consistent :=
  iff_of_true (congrArg Option.isSome h.interest) h.added

def closeReport : List Effect :=
  [.connectionCallback true, .closing, .connectionCallback false, .closeCallback]

theorem Up.handleClose (h : c.Up) : c.handleClose = some c.closed ∧ c.closed.Down closeReport := by
  refine ⟨handleClose_eq h.consistent h.added, by simp [closed], rfl, rfl, rfl, ?_⟩
  rw [closed, milestones_append, h.milestones]
  rfl

theorem Up.readStage (h : c.Up) (revents : Revents) (readResult : ReadResult) :
    ∃ d, c.readStage revents readResult = some d ∧
      (closes revents readResult = true → d.Down closeReport) ∧
      (closes revents readResult = false → d.Up) := by
  have hclose : ∀ d : TcpConnection, d.Up → ∃ e, d.handleClose = some e ∧ e.Down closeReport :=
    fun d hd ↦ ⟨_, hd.handleClose⟩
  unfold TcpConnection.readStage closes
  cases revents.read with
  | true =>
    cases readResult with
    | failed => exact ⟨c, rfl, (absurd · Bool.false_ne_true), fun _ ↦ h⟩
    | read bytes =>
      have hfilled : Up { c with inputBuffer_ := c.inputBuffer_.readFd bytes } :=
        ⟨⟨h.added, h.interest⟩, h.reading, h.state, h.milestones⟩
      cases bytes with
      | nil =>
        obtain ⟨d, hd, hdown⟩ := hclose _ hfilled
        refine ⟨d, ?_, fun _ ↦ hdown, (absurd ·.symm Bool.false_ne_true)⟩
        simp only [handleRead, hd, if_true, ne_eq, not_true_eq_false, if_false, Option.map_some]
      | cons b bytes => exact ⟨_, rfl, (absurd · Bool.false_ne_true), fun _ ↦ hfilled⟩
  | false =>
    cases revents.hangup with
    | true =>
      obtain ⟨d, hd, hdown⟩ := hclose c h
      exact ⟨d, hd, fun _ ↦ hdown, (absurd ·.symm Bool.false_ne_true)⟩
    | false => exact ⟨c, rfl, (absurd · Bool.false_ne_true), fun _ ↦ h⟩

theorem Down.connected (h : c.Down reported) : c.connected = false := by
  rw [TcpConnection.connected, h.state]
  rfl

theorem Down.send (h : c.Down reported) (buf : Bytes) (result : WriteResult) :
    c.send buf result = some c := by
  rw [TcpConnection.send, h.connected, if_neg Bool.false_ne_true]

theorem Down.shutdown (h : c.Down reported) : c.shutdown = c := by
  rw [TcpConnection.shutdown, h.connected, if_neg Bool.false_ne_true]

theorem Down.writeStage (h : c.Down reported) (write : Bool) (result : WriteResult) :
    c.writeStage write result = some c := by
  have hnothing : c.handleWrite result = some c := by
    unfold handleWrite
    exact if_neg (by rw [h.notWriting]; exact Bool.false_ne_true)
  rw [TcpConnection.writeStage, hnothing, ite_self]

theorem milestones_registered (c : TcpConnection) (r : EPollPoller.Registration) :
    CppAiService.milestones (c.registered r).trace = CppAiService.milestones c.trace := by
  have hnone : CppAiService.milestones (r.calls.map .epoll) = [] := by
    refine List.filter_eq_nil_iff.2 fun e he ↦ ?_
    obtain ⟨operation, -, rfl⟩ := List.mem_map.1 he
    exact Bool.false_ne_true
  rw [registered, milestones_append, hnone, List.append_nil]

theorem removeChannel_spec (h : c.registration.Consistent) :
    ∃ d, c.removeChannel = some d ∧ d.channel_ = ⟨c.channel_.events_, .kNew⟩ ∧
      d.interest = none ∧ d.state_ = c.state_ ∧
      CppAiService.milestones d.trace = CppAiService.milestones c.trace := by
  obtain ⟨r, hr, -, hchannel, hinterest, -⟩ := EPollPoller.removeChannel_consistent h
  refine ⟨c.registered r, ?_, hchannel, hinterest, rfl, milestones_registered c r⟩
  rw [removeChannel, hr, Option.map_some]

theorem Down.removeChannel (h : c.Down reported) :
    ∃ d, c.removeChannel = some d ∧ d.Down reported := by
  have hconsistent : c.registration.Consistent :=
    iff_of_false (by simp [registration, h.interest]) h.index_ne
  obtain ⟨d, hd, hchannel, hinterest, hstate, hmilestones⟩ := removeChannel_spec hconsistent
  refine ⟨d, hd, ?_, hinterest, ?_, hstate.trans h.state, hmilestones.trans h.milestones⟩
  · rw [hchannel]
    exact (by decide : ChannelIndex.kNew ≠ .kAdded)
  · rw [Channel.isWriting, hchannel]
    exact h.notWriting

theorem Down.connectDestroyed (h : c.Down reported) :
    ∃ d, c.connectDestroyed = some d ∧ d.Down reported := by
  rw [TcpConnection.connectDestroyed, h.connected, if_neg Bool.false_ne_true]
  exact h.removeChannel

/-- A connection that is still connected is reported down when it is destroyed. -/
theorem Up.connectDestroyed_of_connected (h : c.Up) (hstate : c.state_ = .kConnected) :
    ∃ d, c.connectDestroyed = some d ∧
      d.Down [.connectionCallback true, .connectionCallback false] := by
  have hc : c.connected = true := decide_eq_true hstate
  have hadded : (c.setState .kDisconnected).channel_.index_ = .kAdded := h.added
  have hconsistent : (c.setState .kDisconnected).registration.Consistent := h.consistent
  rw [TcpConnection.connectDestroyed, hc, if_pos rfl, disableAll_of_added hconsistent hadded]
  let d : TcpConnection := { c.setState .kDisconnected with
    channel_ := ⟨kNoneEvent, .kDeleted⟩
    interest := none
    trace := c.trace ++ [.epoll .del] }
  change ∃ e, (d.emit (.connectionCallback false)).removeChannel = some e ∧ _
  have hdown : (d.emit (.connectionCallback false)).Down
      [.connectionCallback true, .connectionCallback false] := by
    refine ⟨by simp [d, emit], rfl, rfl, rfl, ?_⟩
    rw [emit, milestones_append, milestones_append, h.milestones]
    rfl
  exact hdown.removeChannel

/-- A connection that is shutting down is destroyed without a report. -/
theorem Up.connectDestroyed_of_disconnecting (h : c.Up) (hstate : c.state_ = .kDisconnecting) :
    ∃ d, c.connectDestroyed = some d ∧
      CppAiService.milestones d.trace = [.connectionCallback true] := by
  have hc : c.connected = false := by rw [connected, hstate]; rfl
  obtain ⟨d, hd, -, -, -, hmilestones⟩ := removeChannel_spec h.consistent
  refine ⟨d, ?_, hmilestones.trans h.milestones⟩
  rw [TcpConnection.connectDestroyed, hc, if_neg Bool.false_ne_true]
  exact hd

end TcpConnection

end CppAiService
