import CppAiService.ClosedConnection
import CppAiService.ResponseFraming

namespace CppAiService.OneAnswer

open EchoServer Foundation.Log Foundation.Run TcpConnection

/-- What one poll reports of a connection, and what its handlers then meet outside the process. -/
structure PollEvent where
  revents : Revents
  readResult : ReadResult
  env : RequestEnv
  sendResult : WriteResult
  writeResult : WriteResult

def readBytes : ReadResult → Bytes
  | .read bytes => bytes
  | .failed => []

def PollEvent.data (e : PollEvent) : Bytes :=
  if e.revents.read then readBytes e.readResult else []

def poll (hash : Bytes → ℕ) (pages : WebPages) (w : TcpConnection × Served) (e : PollEvent) :
    Option (TcpConnection × Served) :=
  if e.revents.possible w.1.interest then
    w.1.handleEvent (onMessage hash pages e.env e.sendResult) w.2 e.revents e.readResult
      e.writeResult
  else none

def responses (s : Served) : Bytes := s.answers.flatMap Prod.fst

/-- Every answer has gone to the output side, and to no side that is already shut down. -/
structure AllAnswered (w : TcpConnection × Served) : Prop where
  stream : written w.1.trace ++ w.1.outputBuffer_.readable = responses w.2
  final : Every (Final (responses w.2)) w.1.trace

def Takes (c : TcpConnection) (data : Bytes) (sendResult : WriteResult) : Prop :=
  data ≠ [] → c.connected = true ∧ sendResult ≠ .peerGone

instance (c : TcpConnection) (data : Bytes) (sendResult : WriteResult) :
    Decidable (Takes c data sendResult) := inferInstanceAs (Decidable (_ → _ ∧ _))

def Answerable (w : TcpConnection × Served) (e : PollEvent) : Prop := Takes w.1 e.data e.sendResult

instance (w : TcpConnection × Served) (e : PollEvent) : Decidable (Answerable w e) :=
  inferInstanceAs (Decidable (Takes ..))

structure Polled (w : TcpConnection × Served) : Prop where
  idle : w.1.inputBuffer_.readable = []
  delivering : w.1.Delivering (responses w.2)
  fresh : w.1.connected = true → w.2.answers = []

structure Closed (w : TcpConnection × Served) : Prop where
  interest : w.1.interest = none
  notWriting : w.1.channel_.isWriting = false
  answered : AllAnswered w

def Lost (w : TcpConnection × Served) : Prop :=
  ∃ sent, w.1.Delivering sent ∧ sent ≠ responses w.2

variable {hash : Bytes → ℕ} {homeBody directBody : Bytes} {w t : TcpConnection × Served}
  {c : TcpConnection} {s : Served}

theorem Polled.answered (h : Polled w) : AllAnswered w := ⟨h.delivering.stream, h.delivering.final⟩

theorem Lost.not_answered (h : Lost w) : ¬ AllAnswered w := by
  obtain ⟨sent, hdelivering, hne⟩ := h
  intro hanswered
  exact hne (hdelivering.stream.symm.trans hanswered.stream)

theorem responses_append (s : Served) (gateway : GatewayState) (response : Bytes) (taken : Bool) :
    responses ⟨gateway, s.answers ++ [(response, taken)]⟩ = responses s ++ response := by
  simp only [responses, List.flatMap_append, List.flatMap_singleton]

theorem Polled.closed (h : Polled (c, s)) : Closed (c.closed, s) := by
  refine ⟨rfl, rfl, ?_, ?_⟩
  · change written (c.trace ++ closeEffects) ++ c.outputBuffer_.readable = _
    have hquiet : written closeEffects = [] := rfl
    rw [written_append, hquiet, List.append_nil]
    exact h.delivering.stream
  · refine every_append_of_forall h.delivering.final fun e he earlier ↦ final_of_ne ?_
    intro heq
    simp [heq, closeEffects] at he

theorem handleClose_ready (h : c.Ready) : c.handleClose = some c.closed :=
  handleClose_eq (iff_of_true (congrArg Option.isSome h.interest) h.added) h.added

theorem response_ne_nil {gateway gateway' : GatewayState} {raw : Bytes} {env : RequestEnv}
    {result : RouteResult}
    (h : Gateway.handleRawRequest hash (.render homeBody directBody) gateway raw env =
      some (result, gateway')) : result.response ≠ [] := by
  obtain ⟨body, -, contentType, hframed⟩ := ResponseFraming.made_raw raw env _ h
  have hresponse : result.response = HttpCodec.httpResponse result.status contentType body :=
    hframed.response
  rw [hresponse, MessageFraming.httpResponse_eq]
  simp [MessageFraming.message]

/-- After a step, nothing is owed if the step could be answered, and an answer is lost if not. -/
def Settles (took : Prop) (w : TcpConnection × Served) : Prop :=
  (took ∧ (Polled w ∨ Closed w)) ∨ (¬ took ∧ Lost w)

theorem Polled.read_data (h : Polled (c, s)) (segment : Segment)
    (ht : readEvent hash (.render homeBody directBody) (c, s) segment = some t) :
    Settles (Takes c segment.bytes segment.result) t := by
  cases hanswer : Gateway.handleRawRequest hash (.render homeBody directBody) s.gateway
      segment.bytes segment.env with
  | none =>
    rw [readEvent_eq h.idle, hanswer] at ht
    cases ht
  | some answer =>
    obtain ⟨result, gateway⟩ := answer
    have hne := response_ne_nil hanswer
    cases hc : c.connected with
    | false =>
      -- the handler has run, and `send` does nothing
      rw [readEvent_of_not_connected h.idle hc, hanswer] at ht
      obtain rfl := Option.some.inj ht
      refine .inr ⟨fun htakes ↦ ?_, responses s, emptied_delivering h.delivering segment, ?_⟩
      · cases hc.symm.trans (htakes segment.nonempty).1
      · rw [responses_append]
        exact fun heq ↦ hne (List.self_eq_append_right.1 heq)
    | true =>
      have hfresh := h.fresh hc
      have hnone : responses s = [] := by rw [responses, hfresh, List.flatMap_nil]
      have hdelivering := h.delivering
      rw [hnone] at hdelivering
      obtain ⟨d, hd, hidle, hdc, hsent⟩ := readEvent_of_connected h.idle hc hdelivering hanswer
      obtain rfl := Option.some.inj (hd.symm.trans ht)
      have hgiven := responses_append s gateway result.response true
      rw [hnone, List.nil_append] at hgiven
      by_cases hgone : segment.result = .peerGone
      · rw [if_pos hgone] at hsent
        refine .inr ⟨fun htakes ↦ (htakes segment.nonempty).2 hgone, [], hsent, ?_⟩
        rw [hgiven]
        exact hne.symm
      · rw [if_neg hgone] at hsent
        refine .inl ⟨fun _ ↦ ⟨hc, hgone⟩, .inl ⟨hidle, ?_, fun hopen ↦ ?_⟩⟩
        · change d.Delivering (responses ⟨gateway, s.answers ++ [(result.response, true)]⟩)
          rwa [hgiven]
        · cases hdc.symm.trans hopen

theorem Polled.handleRead (h : Polled (c, s)) {readResult : ReadResult} {env : RequestEnv}
    {sendResult : WriteResult}
    (ht : c.handleRead (onMessage hash (.render homeBody directBody) env sendResult) s readResult =
      some t) : Settles (Takes c (readBytes readResult) sendResult) t := by
  cases readResult with
  | failed =>
    obtain rfl := Option.some.inj ht
    exact .inl ⟨fun hno ↦ absurd rfl hno, .inl h⟩
  | read bytes =>
    by_cases hne : bytes = []
    · subst hne
      have hread : Polled ({ c with inputBuffer_ := c.inputBuffer_.readFd [] }, s) := by
        refine ⟨?_, ⟨h.delivering.ready.congr rfl rfl rfl, h.delivering.stream,
          h.delivering.ended, h.delivering.final⟩, h.fresh⟩
        change (c.inputBuffer_.readFd []).readable = []
        rw [Buffer.readable_readFd, List.append_nil]
        exact h.idle
      have hclose := handleClose_ready hread.delivering.ready
      simp only [TcpConnection.handleRead, ne_eq, not_true_eq_false, if_false, hclose,
        Option.map_some, Option.some.injEq] at ht
      subst ht
      exact .inl ⟨fun hno ↦ absurd rfl hno, .inr hread.closed⟩
    · exact h.read_data ⟨bytes, hne, env, sendResult⟩ ht

theorem Polled.writeStage (h : Polled (c, s)) (write : Bool) (result : WriteResult) :
    ∃ d, c.writeStage write result = some d ∧ Polled (d, s) := by
  cases write with
  | false => exact ⟨c, rfl, h⟩
  | true =>
    obtain ⟨d, hd, hdelivering, hconnected, hinput⟩ :=
      h.delivering.handleWrite result
    refine ⟨d, hd, ?_, hdelivering, ?_⟩
    · exact hinput ▸ h.idle
    · exact fun hc ↦ h.fresh (hconnected.symm.trans hc)

theorem Closed.writeStage (h : Closed (c, s)) (write : Bool) (result : WriteResult) :
    c.writeStage write result = some c := by
  cases write with
  | false => rfl
  | true => exact if_neg (Bool.eq_false_iff.1 h.notWriting)

theorem Lost.writeStage (h : Lost (c, s)) (write : Bool) (result : WriteResult) :
    ∃ d, c.writeStage write result = some d ∧ Lost (d, s) := by
  cases write with
  | false => exact ⟨c, rfl, h⟩
  | true =>
    obtain ⟨sent, hdelivering, hne⟩ := h
    obtain ⟨d, hd, hdelivering, -⟩ := hdelivering.handleWrite result
    exact ⟨d, hd, sent, hdelivering, hne⟩

theorem Settles.writeStage {took : Prop} (h : Settles took (c, s)) (write : Bool)
    (result : WriteResult) :
    ∃ d, c.writeStage write result = some d ∧ Settles took (d, s) := by
  obtain ⟨htook, h | h⟩ | ⟨hnot, h⟩ := h
  · obtain ⟨d, hd, hpolled⟩ := h.writeStage write result
    exact ⟨d, hd, .inl ⟨htook, .inl hpolled⟩⟩
  · exact ⟨c, h.writeStage write result, .inl ⟨htook, .inr h⟩⟩
  · obtain ⟨d, hd, hlost⟩ := h.writeStage write result
    exact ⟨d, hd, .inr ⟨hnot, hlost⟩⟩

theorem Polled.poll {e : PollEvent} (h : Polled w)
    (ht : poll hash (.render homeBody directBody) w e = some t) : Settles (Answerable w e) t := by
  obtain ⟨c, s⟩ := w
  rw [OneAnswer.poll] at ht
  split at ht
  · rw [handleEvent_eq] at ht
    obtain ⟨u, hu, hwrite⟩ := Option.bind_eq_some_iff.1 ht
    have hsettles : Settles (Answerable (c, s) e) u := by
      rw [Answerable, PollEvent.data]
      cases hread : e.revents.read with
      | true =>
        rw [hread, if_pos rfl] at hu
        exact h.handleRead hu
      | false =>
        have htakes : Takes c [] e.sendResult := fun hno ↦ absurd rfl hno
        simp only [hread, Bool.false_eq_true, if_false] at hu
        split at hu
        · rw [handleClose_ready h.delivering.ready] at hu
          obtain rfl := Option.some.inj hu
          exact .inl ⟨htakes, .inr h.closed⟩
        · obtain rfl := Option.some.inj hu
          exact .inl ⟨htakes, .inl h⟩
    obtain ⟨d, hd, hsettles⟩ := hsettles.writeStage e.revents.write e.writeResult
    rw [hd] at hwrite
    exact Option.some.inj hwrite ▸ hsettles
  · cases ht

theorem Closed.poll_eq_none (h : Closed w) (e : PollEvent) :
    poll hash (.render homeBody directBody) w e = none := by
  rw [OneAnswer.poll, h.interest]
  rfl

theorem polled_established (writeComplete highWater : Bool) (mark : ℕ) (gateway : GatewayState) :
    Polled (.established writeComplete highWater mark, ⟨gateway, []⟩) where
  idle := Buffer.readable_create kInitialSize
  delivering := delivering_established writeComplete highWater mark
  fresh _ := rfl

/-- A connection has answered all that was handled, in every state of a run, exactly when no
data is read once it has been given its answer. -/
theorem every_request_answered_iff (hash : Bytes → ℕ) (homeBody directBody : Bytes)
    (writeComplete highWater : Bool) (mark : ℕ) (gateway : GatewayState)
    (events : List PollEvent)
    (hrun : (run (poll hash (.render homeBody directBody))
      (.established writeComplete highWater mark, ⟨gateway, []⟩) events).isSome = true) :
    (∀ earlier later, events = earlier ++ later →
        ∃ w, run (poll hash (.render homeBody directBody))
          (.established writeComplete highWater mark, ⟨gateway, []⟩) earlier = some w ∧
          AllAnswered w) ↔
      Along (poll hash (.render homeBody directBody)) Answerable
        (.established writeComplete highWater mark, ⟨gateway, []⟩) events := by
  obtain ⟨final, hfinal⟩ := Option.isSome_iff_exists.1 hrun
  have hanswered : ∀ w : TcpConnection × Served, Polled w ∨ Closed w → AllAnswered w := by
    intro w h
    obtain h | h := h
    · exact h.answered
    · exact h.answered
  have hstep : ∀ (w : TcpConnection × Served) (e : PollEvent),
      (∃ t, poll hash (.render homeBody directBody) w e = some t) → Polled w ∨ Closed w →
      ∃ t, poll hash (.render homeBody directBody) w e = some t ∧
        (Answerable w e → Polled t ∨ Closed t) ∧ (AllAnswered t → Answerable w e) := by
    intro w e hpossible h
    obtain ⟨t, ht⟩ := hpossible
    obtain h | h := h
    · refine ⟨t, ht, ?_⟩
      obtain ⟨hanswerable, h⟩ | ⟨hnot, h⟩ := h.poll ht
      · exact ⟨fun _ ↦ h, fun _ ↦ hanswerable⟩
      · exact ⟨fun hanswerable ↦ absurd hanswerable hnot, fun h' ↦ absurd h' h.not_answered⟩
    · rw [h.poll_eq_none] at ht
      cases ht
  exact prefixes_iff hanswered hstep (.inl (polled_established ..)) (along_of_run hfinal)

section Ingest

open Bytes HttpCodec

def reading (bytes : Bytes) : PollEvent where
  revents := ⟨false, false, true, false⟩
  readResult := .read bytes
  env := (quietSegment (lit "x") (by decide)).env
  sendResult := .accepted (2 ^ 20)
  writeResult := .wouldBlock

theorem one_request_answered :
    ∃ w, run (poll (fun _ ↦ 0) (.render [] [])) (.established false false 0, ⟨emptyGateway, []⟩)
        [reading (ingestHead ++ ingestBody), reading []] = some w ∧ AllAnswered w :=
  (every_request_answered_iff (fun _ ↦ 0) [] [] false false 0 emptyGateway _
    (by decide +kernel)).2 (by decide +kernel) _ [] rfl

def otherBody : Bytes := lit "\x7b\"id\":\"x\",\"title\":\"y\",\"content\":\"z\"\x7d"

def ingestedAnswer (id title : Bytes) : Bytes :=
  jsonResponse (lit "200 OK")
    (lit "\x7b\"ok\":true,\"id\":\"" ++ id ++ lit "\",\"title\":\"" ++ title ++ lit "\"\x7d")

/-- A second request on the connection stores its document, and its answer is nowhere: the write
side was shut down behind the first one. -/
theorem second_request_unanswered :
    ∃ w, run (poll (fun _ ↦ 0) (.render [] [])) (.established false false 0, ⟨emptyGateway, []⟩)
        [reading (ingestHead ++ ingestBody), reading (ingestHead ++ otherBody)] = some w ∧
      w.2.gateway.ragStore_.documents_ =
        [⟨lit "a", lit "b", lit "c"⟩, ⟨lit "x", lit "y", lit "z"⟩] ∧
      w.1.trace = [.epoll (.add ⟨true, false⟩), .connectionCallback true,
        .wrote (ingestedAnswer (lit "a") (lit "b")), .shutdownWrite] ∧
      w.1.outputBuffer_.readable = [] ∧ ¬ AllAnswered w := by
  have hend : (run (poll (fun _ ↦ 0) (.render [] []))
      (.established false false 0, ⟨emptyGateway, []⟩)
      [reading (ingestHead ++ ingestBody), reading (ingestHead ++ otherBody)]).map
        (fun w ↦ (w.2.gateway.ragStore_.documents_, w.1.trace, w.1.outputBuffer_.readable,
          responses w.2)) =
      some ([⟨lit "a", lit "b", lit "c"⟩, ⟨lit "x", lit "y", lit "z"⟩],
        [.epoll (.add ⟨true, false⟩), .connectionCallback true,
          .wrote (ingestedAnswer (lit "a") (lit "b")), .shutdownWrite], [],
        ingestedAnswer (lit "a") (lit "b") ++ ingestedAnswer (lit "x") (lit "y")) := by
    decide +kernel
  obtain ⟨w, hw, hvalues⟩ := Option.map_eq_some_iff.1 hend
  simp only [Prod.mk.injEq] at hvalues
  obtain ⟨hdocuments, htrace, hreadable, hresponses⟩ := hvalues
  refine ⟨w, hw, hdocuments, htrace, hreadable, fun hanswered ↦ ?_⟩
  have hstream := hanswered.stream
  rw [htrace, hreadable, hresponses] at hstream
  revert hstream
  decide +kernel

end Ingest

end CppAiService.OneAnswer
