import CppAiService.Foundation.Log
import CppAiService.TcpConnection

namespace CppAiService

open Foundation.Log Foundation.Run

def Effect.bytes : Effect → Bytes
  | .wrote bytes => bytes
  | _ => []

def written (trace : List Effect) : Bytes := trace.flatMap Effect.bytes

@[simp] theorem written_append (trace trace' : List Effect) :
    written (trace ++ trace') = written trace ++ written trace' := List.flatMap_append

@[simp] theorem written_singleton (e : Effect) : written [e] = e.bytes := List.flatMap_singleton ..

namespace TcpConnection

variable {c d : TcpConnection} {events : Events} {data : Bytes}

structure Watched (c : TcpConnection) : Prop where
  added : c.channel_.index_ = .kAdded
  interest : c.interest = some c.channel_.events_

def modified (c : TcpConnection) (events : Events) : TcpConnection :=
  { c with
    channel_ := ⟨events, .kAdded⟩
    interest := some events
    trace := c.trace ++ [.epoll (.mod events)] }

theorem Watched.setEvents (h : c.Watched) (hne : events ≠ kNoneEvent) :
    c.setEvents events = some (c.modified events) := by
  have hconsistent : EPollPoller.Registration.Consistent
      { c.registration with channel := { c.channel_ with events_ := events } } :=
    iff_of_true (congrArg Option.isSome h.interest) h.added
  rw [TcpConnection.setEvents,
    EPollPoller.updateChannel_mod hconsistent h.added (decide_eq_false hne), Option.map_some,
    TcpConnection.modified, ← h.added]
  rfl

/-- A connection that reads, and asks to write exactly when something is left to send. -/
structure Ready (c : TcpConnection) : Prop extends Watched c where
  reading : c.channel_.events_.read = true
  writing_iff : c.channel_.isWriting = true ↔ c.outputBuffer_.readable ≠ []

theorem Ready.congr (h : c.Ready) (hchannel : d.channel_ = c.channel_)
    (hinterest : d.interest = c.interest) (hbuffer : d.outputBuffer_ = c.outputBuffer_) :
    d.Ready := by
  refine ⟨⟨?_, ?_⟩, ?_, ?_⟩
  · rw [hchannel, h.added]
  · rw [hinterest, hchannel, h.interest]
  · rw [hchannel, h.reading]
  · rw [hchannel, hbuffer]
    exact h.writing_iff

/-- One step to the next: the data has gone behind what was left to send, and some of the front
of both has been written. -/
structure Flows (c d : TcpConnection) (data : Bytes) : Prop where
  ready : d.Ready
  state_ : d.state_ = c.state_
  inputBuffer_ : d.inputBuffer_ = c.inputBuffer_
  bytes : ∃ es, d.trace = c.trace ++ es ∧ .shutdownWrite ∉ es ∧
    written es ++ d.outputBuffer_.readable = c.outputBuffer_.readable ++ data

theorem Flows.refl (h : c.Ready) : Flows c c [] :=
  ⟨h, rfl, rfl, [], (List.append_nil _).symm, List.not_mem_nil, (List.append_nil _).symm⟩

theorem Flows.trans {e : TcpConnection} {data' : Bytes} (h : Flows c d data)
    (h' : Flows d e data') : Flows c e (data ++ data') := by
  obtain ⟨es, htrace, hnot, hbytes⟩ := h.bytes
  obtain ⟨es', htrace', hnot', hbytes'⟩ := h'.bytes
  refine ⟨h'.ready, h'.state_.trans h.state_, h'.inputBuffer_.trans h.inputBuffer_, es ++ es', ?_,
    ?_, ?_⟩
  · rw [htrace', htrace, List.append_assoc]
  · exact fun hmem ↦ (List.mem_append.1 hmem).elim hnot hnot'
  · rw [written_append, List.append_assoc, hbytes', ← List.append_assoc, hbytes, List.append_assoc]

theorem Flows.emit (h : c.Ready) {e : Effect} (he : .shutdownWrite ≠ e)
    (hbytes : c.outputBuffer_.readable = [] ∨ e.bytes = []) : Flows c (c.emit e) e.bytes where
  ready := h.congr rfl rfl rfl
  state_ := rfl
  inputBuffer_ := rfl
  bytes := by
    refine ⟨[e], rfl, fun hmem ↦ he (List.mem_singleton.1 hmem), ?_⟩
    change written [e] ++ c.outputBuffer_.readable = c.outputBuffer_.readable ++ e.bytes
    rw [written_singleton]
    obtain hnil | hnil := hbytes
    · rw [hnil, List.append_nil, List.nil_append]
    · rw [hnil, List.append_nil, List.nil_append]

theorem Flows.emitIf (h : c.Ready) (p : Prop) [Decidable p] {e : Effect} (he : .shutdownWrite ≠ e)
    (hbytes : e.bytes = []) : Flows c (c.emitIf p e) [] := by
  obtain heq | heq := c.emitIf_eq p e
  · exact heq ▸ hbytes ▸ Flows.emit h he (.inr hbytes)
  · exact heq.symm ▸ Flows.refl h

theorem Flows.checkHighWaterMark (h : c.Ready) (remaining : ℕ) :
    Flows c (c.checkHighWaterMark remaining) [] :=
  Flows.emitIf h _ (by simp) rfl

theorem Flows.append (h : c.Ready) (hdata : data ≠ []) :
    ∃ d, (if c.channel_.isWriting then some { c with outputBuffer_ := c.outputBuffer_.append data }
        else { c with outputBuffer_ := c.outputBuffer_.append data }.enableWriting) = some d ∧
      Flows c d data := by
  have hreadable : (c.outputBuffer_.append data).readable ≠ [] := by
    rw [Buffer.readable_append]
    exact List.append_ne_nil_of_right_ne_nil _ hdata
  split
  · next hwriting =>
    refine ⟨_, rfl, ⟨⟨h.added, h.interest⟩, h.reading, iff_of_true hwriting hreadable⟩, rfl, rfl,
      [], (List.append_nil _).symm, List.not_mem_nil, Buffer.readable_append ..⟩
  · have hne : { c.channel_.events_ with write := true } ≠ kNoneEvent := by
      intro heq
      have hwrite : true = false := congrArg Events.write heq
      cases hwrite
    have hwatched : Watched { c with outputBuffer_ := c.outputBuffer_.append data } :=
      ⟨h.added, h.interest⟩
    refine ⟨_, hwatched.setEvents hne, ⟨⟨rfl, rfl⟩, h.reading, iff_of_true rfl hreadable⟩, rfl, rfl,
      [.epoll (.mod { c.channel_.events_ with write := true })], rfl, by simp, ?_⟩
    exact Buffer.readable_append ..

theorem keepUnsent_flows (h : c.Ready) (hdata : data ≠ []) :
    ∃ d, c.keepUnsent data = some d ∧ Flows c d data := by
  have hmark := Flows.checkHighWaterMark h data.length
  obtain ⟨d, hd, hflows⟩ := Flows.append hmark.ready hdata
  exact ⟨d, hd, hmark.trans hflows⟩

theorem writeDirectly_flows (h : c.Ready) (hempty : c.outputBuffer_.readable = [])
    (data : Bytes) {result : WriteResult} (hresult : result ≠ .peerGone) :
    ∃ d n, c.writeDirectly data result = (d, n, false) ∧ Flows c d (data.take n) := by
  cases result with
  | accepted n =>
    have hwrote := Flows.emit h (e := .wrote (data.take (min n data.length))) (by simp)
      (.inl hempty)
    have hcomplete := Flows.emitIf hwrote.ready (min n data.length = data.length ∧
      c.writeCompleteCallback_ = true) (e := .writeComplete) (by simp) rfl
    refine ⟨_, _, rfl, ?_⟩
    have hflows := hwrote.trans hcomplete
    rwa [List.append_nil] at hflows
  | wouldBlock => exact ⟨c, 0, rfl, Flows.refl h⟩
  | peerGone => exact absurd rfl hresult
  | failed => exact ⟨c, 0, rfl, Flows.refl h⟩

theorem sendInLoop_flows (h : c.Ready) (data : Bytes) {result : WriteResult}
    (hresult : result ≠ .peerGone) :
    ∃ d, c.sendInLoop data result = some d ∧ Flows c d data := by
  by_cases hdirect : c.channel_.isWriting = false ∧ c.outputBuffer_.readableBytes = 0
  · have hempty := (Buffer.readableBytes_eq_zero_iff _).1 hdirect.2
    obtain ⟨d, n, hwrite, hflows⟩ := writeDirectly_flows h hempty data hresult
    simp only [sendInLoop, if_pos hdirect, hwrite, true_and]
    split
    · next hrest =>
      have hne : data.drop n ≠ [] := fun hnil ↦ by
        have hle := List.drop_eq_nil_iff.1 hnil
        omega
      obtain ⟨e, he, hkept⟩ := keepUnsent_flows hflows.ready hne
      exact ⟨e, he, by simpa only [List.take_append_drop] using hflows.trans hkept⟩
    · next hrest =>
      have hall : data.take n = data := List.take_of_length_le (by omega)
      exact ⟨d, rfl, hall ▸ hflows⟩
  · simp only [sendInLoop, if_neg hdirect, true_and, Nat.sub_zero, List.drop_zero]
    split
    · next hpos => exact keepUnsent_flows h (List.ne_nil_of_length_pos hpos)
    · next hzero =>
      have hnil : data = [] := List.length_eq_zero_iff.1 (by omega)
      exact ⟨c, rfl, hnil ▸ Flows.refl h⟩

theorem readable_retrieveWritten (c : TcpConnection) (n : ℕ) :
    (c.retrieveWritten n).outputBuffer_.readable = c.outputBuffer_.readable.drop n :=
  Buffer.readable_retrieve ..

theorem Flows.retrieveWritten {n : ℕ} (hn : n ≤ c.outputBuffer_.readableBytes) {es : List Effect}
    (hready : d.Ready) (hstate : d.state_ = c.state_) (hinput : d.inputBuffer_ = c.inputBuffer_)
    (htrace : d.trace = (c.retrieveWritten n).trace ++ es) (hes : .shutdownWrite ∉ es)
    (hbytes : written es = [])
    (hreadable : d.outputBuffer_.readable = (c.retrieveWritten n).outputBuffer_.readable) :
    Flows c d [] := by
  refine ⟨hready, hstate, hinput, .wrote (c.outputBuffer_.peek n) :: es, ?_, ?_, ?_⟩
  · rw [htrace]
    exact (List.append_cons ..).symm
  · exact List.not_mem_cons_of_ne_of_not_mem (by simp) hes
  · rw [hreadable, readable_retrieveWritten, ← List.singleton_append, written_append,
      written_singleton, hbytes, List.append_nil, List.append_nil, Buffer.peek_eq_take hn]
    exact List.take_append_drop ..

/-- The last byte is written: the connection no longer asks for write events, and carries out
a shutdown that has waited for this. -/
theorem drained_spec {n : ℕ} (h : c.Ready) (hn : n ≤ c.outputBuffer_.readableBytes)
    (hempty : (c.retrieveWritten n).outputBuffer_.readable = []) :
    ∃ d, Flows c d [] ∧ d.outputBuffer_.readable = [] ∧ (c.retrieveWritten n).drained =
      some (if d.state_ = .kDisconnecting then d.emit .shutdownWrite else d) := by
  have hwatched : (c.retrieveWritten n).Watched := ⟨h.added, h.interest⟩
  have hne : { c.channel_.events_ with write := false } ≠ kNoneEvent := by
    intro heq
    have hread : c.channel_.events_.read = false := congrArg Events.read heq
    cases h.reading.symm.trans hread
  let d := (c.retrieveWritten n).modified { c.channel_.events_ with write := false }
  have hready : d.Ready := by
    refine ⟨⟨rfl, rfl⟩, h.reading, iff_of_false Bool.false_ne_true ?_⟩
    rw [not_not]
    exact hempty
  have hflows : Flows c d [] :=
    Flows.retrieveWritten hn hready rfl rfl rfl (by simp) rfl rfl
  have hcomplete := Flows.emitIf hready (d.writeCompleteCallback_ = true) (e := .writeComplete)
    (by simp) rfl
  refine ⟨_, hflows.trans hcomplete, hempty, ?_⟩
  have hdisable : (c.retrieveWritten n).disableWriting = some d := hwatched.setEvents hne
  simp only [drained, hdisable, Option.bind_eq_bind, Option.bind_some]
  rfl

/-- What a write event does: it moves bytes on, and ends the stream once the last one is gone
after a shutdown. -/
theorem handleWrite_flows (h : c.Ready) (result : WriteResult) :
    ∃ d, Flows c d [] ∧ (c.handleWrite result = some d ∨
      (c.handleWrite result = some (d.emit .shutdownWrite) ∧ d.state_ = .kDisconnecting ∧
        c.outputBuffer_.readable ≠ [] ∧ d.outputBuffer_.readable = [])) := by
  unfold handleWrite
  split
  · next hwriting =>
    cases result with
    | accepted n =>
      dsimp only
      generalize hmin : min n c.outputBuffer_.readableBytes = n
      have hn : n ≤ c.outputBuffer_.readableBytes := hmin ▸ Nat.min_le_right ..
      split_ifs with hzero hdone
      · exact ⟨c, Flows.refl h, .inl rfl⟩
      · obtain ⟨d, hflows, hempty, hdrained⟩ :=
          drained_spec h hn ((Buffer.readableBytes_eq_zero_iff _).1 hdone)
        refine ⟨d, hflows, ?_⟩
        rw [hdrained]
        split
        · next hstate => exact .inr ⟨rfl, hstate, h.writing_iff.1 hwriting, hempty⟩
        · exact .inl rfl
      · have hready : (c.retrieveWritten n).Ready :=
          ⟨⟨h.added, h.interest⟩, h.reading, iff_of_true hwriting
            fun hnil ↦ hdone ((Buffer.readableBytes_eq_zero_iff _).2 hnil)⟩
        exact ⟨_, Flows.retrieveWritten hn hready rfl rfl (List.append_nil _).symm List.not_mem_nil
          rfl rfl, .inl rfl⟩
    | wouldBlock => exact ⟨c, Flows.refl h, .inl rfl⟩
    | peerGone => exact ⟨c, Flows.refl h, .inl rfl⟩
    | failed => exact ⟨c, Flows.refl h, .inl rfl⟩
  · exact ⟨c, Flows.refl h, .inl rfl⟩

inductive OutputOp
  | send (buf : Bytes) (result : WriteResult)
  | shutdown
  | handleWrite (result : WriteResult)
  deriving DecidableEq

def OutputOp.answer : OutputOp → Option WriteResult
  | .send _ result => some result
  | .shutdown => none
  | .handleWrite result => some result

/-- Carries out an operation, and keeps the concatenation of what was sent while connected. -/
def outputStep (s : TcpConnection × Bytes) : OutputOp → Option (TcpConnection × Bytes)
  | .send buf result =>
    (s.1.send buf result).map fun c ↦ (c, s.2 ++ if s.1.connected then buf else [])
  | .shutdown => some (s.1.shutdown, s.2)
  | .handleWrite result => (s.1.handleWrite result).map fun c ↦ (c, s.2)

/-- A shutdown comes once, after all that was sent. -/
def Final (sent : Bytes) (earlier : List Effect) (e : Effect) : Prop :=
  e = .shutdownWrite → .shutdownWrite ∉ earlier ∧ written earlier = sent

structure Delivering (c : TcpConnection) (sent : Bytes) : Prop where
  ready : c.Ready
  stream : written c.trace ++ c.outputBuffer_.readable = sent
  ended : .shutdownWrite ∈ c.trace → c.state_ = .kDisconnecting ∧ c.outputBuffer_.readable = []
  final : Every (Final sent) c.trace

theorem final_of_ne {sent : Bytes} {earlier : List Effect} {e : Effect} (h : e ≠ .shutdownWrite) :
    Final sent earlier e := fun heq ↦ absurd heq h

variable {sent : Bytes}

theorem Delivering.flows (h : Delivering c sent) (hflows : Flows c d data)
    (hopen : data = [] ∨ .shutdownWrite ∉ c.trace) : Delivering d (sent ++ data) := by
  obtain ⟨es, htrace, hnot, hbytes⟩ := hflows.bytes
  have hes : ∀ sent, ∀ e ∈ es, ∀ earlier, Final sent earlier e := fun sent e he earlier ↦
    final_of_ne fun heq ↦ hnot (heq ▸ he)
  refine ⟨hflows.ready, ?_, fun hmem ↦ ?_, ?_⟩
  · rw [htrace, written_append, List.append_assoc, hbytes, ← List.append_assoc, h.stream]
  · have hmem : .shutdownWrite ∈ c.trace :=
      (List.mem_append.1 (htrace ▸ hmem)).resolve_right hnot
    obtain ⟨hstate, hempty⟩ := h.ended hmem
    obtain rfl := hopen.resolve_right (not_not_intro hmem)
    rw [hempty, List.append_nil] at hbytes
    exact ⟨hflows.state_.trans hstate, (List.append_eq_nil_iff.1 hbytes).2⟩
  · rw [htrace]
    obtain rfl | hopen := hopen
    · rw [List.append_nil]
      exact every_append_of_forall h.final (hes sent)
    · apply every_of_forall
      intro e he earlier
      refine final_of_ne fun heq ↦ ?_
      exact (List.mem_append.1 (heq ▸ he)).elim hopen hnot

theorem Delivering.shutdownWrite (h : Delivering c sent) (hopen : .shutdownWrite ∉ c.trace)
    (hstate : c.state_ = .kDisconnecting) (hempty : c.outputBuffer_.readable = []) :
    Delivering (c.emit .shutdownWrite) sent := by
  have hsent : written c.trace = sent := by
    rw [← h.stream, hempty, List.append_nil]
  refine ⟨h.ready.congr rfl rfl rfl, ?_, fun _ ↦ ⟨hstate, hempty⟩,
    every_append h.final fun _ ↦ ⟨hopen, hsent⟩⟩
  change written (c.trace ++ [.shutdownWrite]) ++ c.outputBuffer_.readable = sent
  rw [written_append, hempty, hsent]
  simp [Effect.bytes]

theorem Delivering.open_of_connected (h : Delivering c sent) (hc : c.state_ = .kConnected) :
    .shutdownWrite ∉ c.trace := by
  intro hmem
  cases hc.symm.trans (h.ended hmem).1

theorem Delivering.shutdown (h : Delivering c sent) : Delivering c.shutdown sent := by
  rw [TcpConnection.shutdown]
  split
  · next hc =>
    have hopen := h.open_of_connected (of_decide_eq_true hc)
    have hdisconnecting : Delivering (c.setState .kDisconnecting) sent :=
      ⟨h.ready.congr rfl rfl rfl, h.stream, fun hmem ↦ absurd hmem hopen, h.final⟩
    rw [shutdownInLoop]
    split
    · exact hdisconnecting
    · next hwriting =>
      have hempty := not_not.1 (mt h.ready.writing_iff.2 hwriting)
      exact hdisconnecting.shutdownWrite hopen rfl hempty
  · exact h

theorem Delivering.send (h : Delivering c sent) (hc : c.connected = true) (buf : Bytes)
    {result : WriteResult} (hresult : result ≠ .peerGone) :
    ∃ d, c.send buf result = some d ∧ Flows c d buf ∧ Delivering d (sent ++ buf) := by
  obtain ⟨d, hd, hflows⟩ := sendInLoop_flows h.ready buf hresult
  have hopen := h.open_of_connected (of_decide_eq_true hc)
  exact ⟨d, by rw [TcpConnection.send, if_pos hc, hd], hflows, h.flows hflows (.inr hopen)⟩

/-- A write event changes neither what was sent nor the other side of the connection. -/
theorem Delivering.handleWrite (h : Delivering c sent) (result : WriteResult) :
    ∃ d, c.handleWrite result = some d ∧ Delivering d sent ∧ d.connected = c.connected ∧
      d.inputBuffer_ = c.inputBuffer_ := by
  obtain ⟨d, hflows, hd⟩ := handleWrite_flows h.ready result
  have hdelivering := h.flows hflows (.inl rfl)
  rw [List.append_nil] at hdelivering
  have hconnected : d.connected = c.connected := by
    rw [connected, connected, hflows.state_]
  obtain hd | ⟨hd, hstate, hleft, hempty⟩ := hd
  · exact ⟨d, hd, hdelivering, hconnected, hflows.inputBuffer_⟩
  · refine ⟨d.emit .shutdownWrite, hd, hdelivering.shutdownWrite (fun hmem ↦ ?_) hstate hempty,
      hconnected, hflows.inputBuffer_⟩
    obtain ⟨es, htrace, hnot, -⟩ := hflows.bytes
    obtain hmem | hmem := List.mem_append.1 (htrace ▸ hmem)
    · exact hleft (h.ended hmem).2
    · exact hnot hmem

theorem Delivering.step (h : Delivering c sent) {op : OutputOp} (hop : op.answer ≠ some .peerGone) :
    ∃ s, outputStep (c, sent) op = some s ∧ Delivering s.1 s.2 := by
  cases op with
  | send buf result =>
    cases hc : c.connected with
    | true =>
      have hresult : result ≠ .peerGone := fun heq ↦ hop (congrArg some heq)
      obtain ⟨d, hd, -, hdelivering⟩ := h.send hc buf hresult
      refine ⟨(d, sent ++ buf), ?_, hdelivering⟩
      simp only [outputStep, hd, hc, Option.map_some, if_true]
    | false =>
      refine ⟨(c, sent), ?_, h⟩
      simp only [outputStep, TcpConnection.send, hc, Bool.false_eq_true, if_false,
        Option.map_some, List.append_nil]
  | shutdown => exact ⟨_, rfl, h.shutdown⟩
  | handleWrite result =>
    obtain ⟨d, hd, hdelivering, -⟩ := h.handleWrite result
    exact ⟨(d, sent), by rw [outputStep, hd, Option.map_some], hdelivering⟩

theorem delivering_established (writeComplete highWater : Bool) (mark : ℕ) :
    Delivering (established writeComplete highWater mark) [] where
  ready := ⟨⟨rfl, rfl⟩, rfl, iff_of_false Bool.false_ne_true
    (not_not_intro (Buffer.readable_create kInitialSize))⟩
  stream := Buffer.readable_create kInitialSize
  ended hmem := by simp [established] at hmem
  final := every_of_forall fun e he earlier ↦ final_of_ne fun heq ↦ by
    simp [heq, established] at he

theorem output_delivered (writeComplete highWater : Bool) (mark : ℕ) (ops : List OutputOp)
    (hops : ∀ op ∈ ops, op.answer ≠ some .peerGone) :
    ∃ c, (create writeComplete highWater mark).connectEstablished = some c ∧
      ∃ d sent, run outputStep (c, []) ops = some (d, sent) ∧
        written d.trace ++ d.outputBuffer_.readable = sent ∧
        (d.channel_.isWriting = true ↔ d.outputBuffer_.readable ≠ []) ∧
        d.interest = some d.channel_.events_ ∧
        Every (Final sent) d.trace := by
  have hstep : ∀ (s : TcpConnection × Bytes) (op : OutputOp), op.answer ≠ some .peerGone ∧ True →
      Delivering s.1 s.2 → ∃ t, outputStep s op = some t ∧ Delivering t.1 t.2 := by
    intro s op hop h
    exact h.step hop.1
  have halong : Along outputStep (fun _ op ↦ op.answer ≠ some .peerGone ∧ True)
      (established writeComplete highWater mark, []) ops :=
    (along_of_forall (fun _ _ ↦ trivial) _ ops).and_mem hops
  obtain ⟨⟨d, sent⟩, hrun, h⟩ := possible hstep (delivering_established ..) halong
  exact ⟨_, connectEstablished_create .., d, sent, hrun, h.stream, h.ready.writing_iff,
    h.ready.interest, h.final⟩

theorem partial_writes_delivered :
    ∃ c, (create false false 0).connectEstablished = some c ∧
      ∃ d sent, run outputStep (c, []) [.send (lit "abc") (.accepted 1), .shutdown,
          .send (lit "x") .wouldBlock, .handleWrite .wouldBlock, .handleWrite (.accepted 1),
          .handleWrite (.accepted 9)] = some (d, sent) ∧
        written d.trace ++ d.outputBuffer_.readable = sent ∧
        (d.channel_.isWriting = true ↔ d.outputBuffer_.readable ≠ []) ∧
        d.interest = some d.channel_.events_ ∧
        Every (Final sent) d.trace :=
  output_delivered false false 0 _ (by decide)

end TcpConnection

end CppAiService
