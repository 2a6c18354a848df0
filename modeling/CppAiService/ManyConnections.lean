import CppAiService.GatewayRuns
import CppAiService.OneAnswer
import Mathlib.Logic.Function.Basic

namespace CppAiService.ManyConnections

open EchoServer Foundation.Log Foundation.Run GatewayRuns OneAnswer TcpConnection

variable {hash : Bytes → ℕ} {homeBody directBody : Bytes} {c d : TcpConnection} {s : Served}
  {t : TcpConnection × Served} {e : PollEvent}

/-- A write event that empties the output side of a connection that shuts down ends the stream. -/
theorem handleWrite_ends (h : c.Ready) (hstate : c.state_ = .kDisconnecting)
    (hended : c.outputBuffer_.readable = [] → .shutdownWrite ∈ c.trace) {result : WriteResult}
    (hd : c.handleWrite result = some d) (hempty : d.outputBuffer_.readable = []) :
    .shutdownWrite ∈ d.trace := by
  have hsame : some c = some d → .shutdownWrite ∈ d.trace := fun heq ↦ by
    obtain rfl := Option.some.inj heq
    exact hended hempty
  unfold handleWrite at hd
  split at hd
  · cases result with
    | accepted n =>
      dsimp only at hd
      have hn : min n c.outputBuffer_.readableBytes ≤ c.outputBuffer_.readableBytes :=
        Nat.min_le_right ..
      split_ifs at hd with hzero hdone
      · exact hsame hd
      · obtain ⟨u, hflows, -, hdrained⟩ :=
          drained_spec h hn ((Buffer.readableBytes_eq_zero_iff _).1 hdone)
        rw [hdrained, if_pos (hflows.state_.trans hstate)] at hd
        obtain rfl := Option.some.inj hd
        exact List.mem_append_right _ (List.mem_singleton_self _)
      · obtain rfl := Option.some.inj hd
        exact absurd ((Buffer.readableBytes_eq_zero_iff _).2 hempty) hdone
    | wouldBlock => exact hsame hd
    | peerGone => exact hsame hd
    | failed => exact hsame hd
  · exact hsame hd

/-- A connection that is polled: it is open and has answered nothing, or it ends its stream as soon
as the answer is out. -/
structure Side (c : TcpConnection) (s : Served) : Prop where
  polled : Polled (c, s)
  state : c.state_ = .kConnected ∨ c.state_ = .kDisconnecting
  ended : c.state_ = .kDisconnecting → c.outputBuffer_.readable = [] → .shutdownWrite ∈ c.trace

theorem Side.writeStage (h : Side c s) (write : Bool) (result : WriteResult) :
    ∃ d, c.writeStage write result = some d ∧ Side d s := by
  cases write with
  | false => exact ⟨c, rfl, h⟩
  | true =>
    obtain ⟨d, hd, hpolled⟩ := h.polled.writeStage true result
    have hready := h.polled.delivering.ready
    obtain ⟨u, hflows, hu⟩ := handleWrite_flows hready result
    have hstate : d.state_ = c.state_ := by
      obtain hu | ⟨hu, -⟩ := hu
      · obtain rfl := Option.some.inj (hu.symm.trans hd)
        exact hflows.state_
      · obtain rfl := Option.some.inj (hu.symm.trans hd)
        exact hflows.state_
    refine ⟨d, hd, hpolled, by rw [hstate]; exact h.state, fun hdisconnecting hempty ↦ ?_⟩
    have hc : c.state_ = .kDisconnecting := hstate.symm.trans hdisconnecting
    exact handleWrite_ends hready hc (h.ended hc) hd hempty

theorem shutdown_ends (h : c.Ready) (hstate : c.state_ = .kConnected) :
    c.shutdown.state_ = .kDisconnecting ∧
      (c.shutdown.outputBuffer_.readable = [] → .shutdownWrite ∈ c.shutdown.trace) := by
  have hconnected : c.connected = true := decide_eq_true hstate
  rw [shutdown, if_pos hconnected, shutdownInLoop]
  split
  · next hwriting => exact ⟨rfl, fun hempty ↦ absurd hempty (h.writing_iff.1 hwriting)⟩
  · exact ⟨rfl, fun _ ↦ List.mem_append_right _ (List.mem_singleton_self _)⟩

/-- A request that can be answered goes to the gateway, and the answer on its way. -/
theorem Side.read_data (h : Side c s) (segment : Segment)
    (htakes : Takes c segment.bytes segment.result)
    (ht : readEvent hash (.render homeBody directBody) (c, s) segment = some t) :
    Side t.1 t.2 ∧ ∃ result,
      serve hash (.render homeBody directBody) s.gateway ⟨segment.bytes, segment.env⟩ =
        some (result, t.2.gateway) ∧ t.2.answers = s.answers ++ [(result.response, true)] := by
  obtain ⟨hconnected, hresult⟩ := htakes segment.nonempty
  have hsettles := h.polled.read_data segment ht
  rw [readEvent_eq h.polled.idle] at ht
  obtain ⟨⟨result, gateway⟩, hserve, ht⟩ := Option.bind_eq_some_iff.1 ht
  have hemptied := emptied_delivering h.polled.delivering segment
  obtain ⟨d, hd, hflows, hsent⟩ := hemptied.send hconnected result.response hresult
  dsimp only at ht
  rw [hd] at ht
  obtain rfl := Option.some.inj ht
  have hstate : d.state_ = .kConnected := hflows.state_.trans (of_decide_eq_true hconnected)
  obtain ⟨hdisconnecting, hended⟩ := shutdown_ends hsent.ready hstate
  refine ⟨⟨?_, .inr hdisconnecting, fun _ ↦ hended⟩, result, hserve, by rw [hconnected]⟩
  obtain ⟨-, hpolled | hclosed⟩ | ⟨hnot, -⟩ := hsettles
  · exact hpolled
  · have hinterest : d.shutdown.interest = none := hclosed.interest
    have hready : d.shutdown.Ready := hsent.shutdown.ready
    cases hinterest.symm.trans hready.interest
  · exact absurd (fun _ ↦ ⟨hconnected, hresult⟩) hnot

/-- What an event means to the shared objects: its data is a request, if there is any. -/
def Serves (hash : Bytes → ℕ) (pages : WebPages) (s : Served) (data : Bytes) (env : RequestEnv)
    (t : Served) : Prop :=
  if data = [] then t = s
  else ∃ result, serve hash pages s.gateway ⟨data, env⟩ = some (result, t.gateway) ∧
    t.answers = s.answers ++ [(result.response, true)]

theorem serves_nil (s : Served) (env : RequestEnv) :
    Serves hash (.render homeBody directBody) s [] env s := (if_pos rfl).mpr rfl

theorem Side.closed (h : Side c s) : Closed (c.closed, s) := h.polled.closed

theorem Side.handleRead (h : Side c s) {readResult : ReadResult} {env : RequestEnv}
    {sendResult : WriteResult} (htakes : Takes c (readBytes readResult) sendResult)
    (ht : c.handleRead (onMessage hash (.render homeBody directBody) env sendResult) s readResult =
      some t) :
    (Side t.1 t.2 ∨ Closed t) ∧
      Serves hash (.render homeBody directBody) s (readBytes readResult) env t.2 := by
  cases readResult with
  | failed =>
    obtain rfl := Option.some.inj ht
    exact ⟨.inl h, serves_nil ..⟩
  | read bytes =>
    by_cases hne : bytes = []
    · subst hne
      have hsettles := h.polled.handleRead ht
      simp only [TcpConnection.handleRead, ne_eq, not_true_eq_false, if_false] at ht
      obtain ⟨d, hd, rfl⟩ := Option.map_eq_some_iff.1 ht
      have hready : { c with inputBuffer_ := c.inputBuffer_.readFd [] }.Ready :=
        h.polled.delivering.ready.congr rfl rfl rfl
      rw [handleClose_ready hready] at hd
      obtain rfl := Option.some.inj hd
      refine ⟨.inr ?_, serves_nil ..⟩
      obtain ⟨-, hpolled | hclosed⟩ | ⟨hnot, -⟩ := hsettles
      · cases hpolled.delivering.ready.interest
      · exact hclosed
      · exact absurd htakes hnot
    · obtain ⟨hside, result, hserve, hanswers⟩ :=
        h.read_data ⟨bytes, hne, env, sendResult⟩ htakes ht
      exact ⟨.inl hside, (if_neg hne).mpr ⟨result, hserve, hanswers⟩⟩

theorem Side.poll (h : Side c s) (hanswerable : Answerable (c, s) e)
    (ht : poll hash (.render homeBody directBody) (c, s) e = some t) :
    (Side t.1 t.2 ∨ Closed t) ∧ Serves hash (.render homeBody directBody) s e.data e.env t.2 := by
  rw [OneAnswer.poll] at ht
  split at ht
  · rw [handleEvent_eq] at ht
    obtain ⟨⟨u, s'⟩, hu, hwrite⟩ := Option.bind_eq_some_iff.1 ht
    have hstage : (Side u s' ∨ Closed (u, s')) ∧
        Serves hash (.render homeBody directBody) s e.data e.env s' := by
      rw [Answerable, PollEvent.data] at hanswerable
      rw [PollEvent.data]
      cases hread : e.revents.read with
      | true =>
        rw [hread, if_pos rfl] at hu hanswerable
        exact h.handleRead hanswerable hu
      | false =>
        simp only [hread, Bool.false_eq_true, if_false] at hu ⊢
        split at hu
        · rw [handleClose_ready h.polled.delivering.ready] at hu
          obtain ⟨rfl, rfl⟩ := Prod.mk.inj (Option.some.inj hu)
          exact ⟨.inr h.closed, serves_nil ..⟩
        · obtain ⟨rfl, rfl⟩ := Prod.mk.inj (Option.some.inj hu)
          exact ⟨.inl h, serves_nil ..⟩
    obtain ⟨d, hd, rfl⟩ := Option.map_eq_some_iff.1 hwrite
    obtain ⟨hside | hclosed, hserves⟩ := hstage
    · obtain ⟨d', hd', hside'⟩ := hside.writeStage e.revents.write e.writeResult
      obtain rfl := Option.some.inj (hd'.symm.trans hd)
      exact ⟨.inl hside', hserves⟩
    · obtain rfl := Option.some.inj ((hclosed.writeStage _ _).symm.trans hd)
      exact ⟨.inr hclosed, hserves⟩
  · cases ht

variable {ι : Type} [DecidableEq ι]

/-- The connections of one loop and the objects that they share. -/
structure Server (ι : Type) where
  gateway : GatewayState
  connection : ι → TcpConnection
  answers : ι → List (Bytes × Bool)

def Server.at (w : Server ι) (i : ι) : TcpConnection × Served :=
  (w.connection i, ⟨w.gateway, w.answers i⟩)

def Server.put (w : Server ι) (i : ι) (u : TcpConnection × Served) : Server ι :=
  ⟨u.2.gateway, Function.update w.connection i u.1, Function.update w.answers i u.2.answers⟩

/-- The loop handles what it has polled of one connection, and then what it has polled of the next
one. Handlers of other loops would run meanwhile. -/
def step (hash : Bytes → ℕ) (pages : WebPages) (w : Server ι) (a : ι × PollEvent) :
    Option (Server ι) :=
  (poll hash pages (w.at a.1) a.2).map (w.put a.1)

def accepted (gateway : GatewayState) (writeComplete highWater : Bool) (mark : ℕ) : Server ι :=
  ⟨gateway, fun _ ↦ .established writeComplete highWater mark, fun _ ↦ []⟩

def request (a : ι × PollEvent) : Option (ι × Request) :=
  if a.2.data = [] then none else some (a.1, ⟨a.2.data, a.2.env⟩)

def requests (events : List (ι × PollEvent)) : List (ι × Request) := events.filterMap request

/-- The answers that are due on a connection, by a log of all that was answered. -/
def due (log : List (ι × Exchange)) (i : ι) : List Bytes :=
  (log.filter fun e ↦ e.1 = i).map fun e ↦ e.2.2.response

/-- Nothing but the answers to its own requests goes out on a connection, and the end of the stream
behind the last byte. -/
structure Receives (c : TcpConnection) (answers : Bytes) : Prop where
  stream : written c.trace ++ c.outputBuffer_.readable = answers
  final : Every (Final answers) c.trace
  ended : c.interest ≠ none → answers ≠ [] →
    (.shutdownWrite ∈ c.trace ↔ c.outputBuffer_.readable = [])

structure Kept (hash : Bytes → ℕ) (pages : WebPages) (start : GatewayState) (w : Server ι)
    (log : List (ι × Exchange)) : Prop where
  gateway : run (logged (serve hash pages)) (start, []) (log.map fun e ↦ e.2.1) =
    some (w.gateway, log.map Prod.snd)
  side : ∀ i, Side (w.connection i) ⟨w.gateway, w.answers i⟩ ∨ Closed (w.at i)
  answers : ∀ i, (w.answers i).map Prod.fst = due log i

variable {start : GatewayState} {w w' : Server ι} {log : List (ι × Exchange)} {a : ι × PollEvent}

theorem due_append (log : List (ι × Exchange)) (i j : ι) (e : Exchange) :
    due (log ++ [(i, e)]) j = due log j ++ if i = j then [e.2.response] else [] := by
  rw [due, due, List.filter_append, List.map_append]
  congr 1
  split
  · next h => rw [List.filter_cons_of_pos (by simpa using h), List.filter_nil]; rfl
  · next h => rw [List.filter_cons_of_neg (by simpa using h), List.filter_nil]; rfl

/-- What is known of a connection does not depend on the shared objects. -/
theorem Kept.put (h : Kept hash (.render homeBody directBody) start w log) {i : ι}
    (ht : Side t.1 t.2 ∨ Closed t) (j : ι) :
    Side ((w.put i t).connection j) ⟨(w.put i t).gateway, (w.put i t).answers j⟩ ∨
      Closed ((w.put i t).at j) := by
  by_cases hj : j = i
  · subst hj
    rw [Server.at, Server.put]
    dsimp only
    rw [Function.update_self, Function.update_self]
    exact ht
  · rw [Server.at, Server.put]
    dsimp only
    rw [Function.update_of_ne hj, Function.update_of_ne hj]
    obtain hj | hj := h.side j
    · exact .inl ⟨⟨hj.polled.idle, hj.polled.delivering, hj.polled.fresh⟩, hj.state, hj.ended⟩
    · exact .inr ⟨hj.interest, hj.notWriting, hj.answered.stream, hj.answered.final⟩

theorem Kept.step (h : Kept hash (.render homeBody directBody) start w log)
    (hanswerable : Answerable (w.at a.1) a.2)
    (hstep : step hash (.render homeBody directBody) w a = some w') :
    ∃ log', Kept hash (.render homeBody directBody) start w' log' ∧
      log'.map (fun e ↦ (e.1, e.2.1)) = log.map (fun e ↦ (e.1, e.2.1)) ++ requests [a] := by
  obtain ⟨i, e⟩ := a
  obtain ⟨⟨c, s⟩, hpoll, rfl⟩ := Option.map_eq_some_iff.1 hstep
  obtain hside | hclosed := h.side i
  · obtain ⟨hafter, hserves⟩ := hside.poll hanswerable hpoll
    rw [Serves] at hserves
    dsimp only at hserves
    split at hserves
    · next hnone =>
      have hrequests : requests [(i, e)] = [] :=
        List.filterMap_cons_none ((if_pos hnone : request (i, e) = none))
      obtain rfl := hserves
      refine ⟨log, ⟨h.gateway, h.put hafter, fun j ↦ ?_⟩, by rw [hrequests, List.append_nil]⟩
      rw [Server.put, Function.update_eq_self_iff.2 rfl]
      exact h.answers j
    · next hdata =>
      have hrequests : requests [(i, e)] = [(i, ⟨e.data, e.env⟩)] :=
        List.filterMap_cons_some ((if_neg hdata : request (i, e) = some (i, ⟨e.data, e.env⟩)))
      obtain ⟨result, hserve, hanswers⟩ := hserves
      refine ⟨log ++ [(i, ⟨e.data, e.env⟩, result)], ⟨?_, h.put hafter, fun j ↦ ?_⟩, ?_⟩
      · rw [List.map_append, List.map_append]
        exact logged_concat h.gateway hserve
      · rw [due_append, Server.put]
        dsimp only
        by_cases hj : j = i
        · rw [hj, Function.update_self, if_pos rfl, hanswers, List.map_append]
          exact congrArg (· ++ _) (h.answers i)
        · rw [Function.update_of_ne hj, if_neg (Ne.symm hj), List.append_nil]
          exact h.answers j
      · rw [hrequests, List.map_append]
        rfl
  · rw [hclosed.poll_eq_none] at hpoll
    cases hpoll

theorem Kept.run {events : List (ι × PollEvent)}
    (h : Kept hash (.render homeBody directBody) start w log)
    (hanswerable : Along (ManyConnections.step hash (.render homeBody directBody))
      (fun w a ↦ Answerable (w.at a.1) a.2) w events)
    (hrun : run (ManyConnections.step hash (.render homeBody directBody)) w events = some w') :
    ∃ log', Kept hash (.render homeBody directBody) start w' log' ∧
      log'.map (fun e ↦ (e.1, e.2.1)) = log.map (fun e ↦ (e.1, e.2.1)) ++ requests events := by
  induction events generalizing w log with
  | nil =>
    obtain rfl := Option.some.inj hrun
    exact ⟨log, h, (List.append_nil _).symm⟩
  | cons a events ih =>
    rw [run_cons, Option.bind_eq_some_iff] at hrun
    obtain ⟨u, hu, hrun⟩ := hrun
    obtain ⟨log₁, h₁, hlog₁⟩ := h.step hanswerable.1 hu
    obtain ⟨log', h', hlog'⟩ := ih h₁ (hanswerable.2 u hu) hrun
    refine ⟨log', h', ?_⟩
    rw [hlog', hlog₁, List.append_assoc, requests, requests, requests, ← List.filterMap_append,
      List.singleton_append]

theorem kept_accepted (hash : Bytes → ℕ) (gateway : GatewayState)
    (writeComplete highWater : Bool) (mark : ℕ) :
    Kept hash (.render homeBody directBody) gateway
      (accepted gateway writeComplete highWater mark : Server ι) [] where
  gateway := rfl
  side _ := .inl ⟨polled_established .., .inl rfl, nofun⟩
  answers _ := rfl

theorem Kept.receives (h : Kept hash (.render homeBody directBody) start w log) (i : ι) :
    Receives (w.connection i) (due log i).flatten := by
  have hdue : responses ⟨w.gateway, w.answers i⟩ = (due log i).flatten := by
    rw [responses, ← h.answers i, List.flatMap_def]
  rw [← hdue]
  obtain hside | hclosed := h.side i
  · refine ⟨hside.polled.delivering.stream, hside.polled.delivering.final,
      fun _ hanswered ↦ ⟨fun hmem ↦ (hside.polled.delivering.ended hmem).2, fun hempty ↦ ?_⟩⟩
    obtain hstate | hstate := hside.state
    · have hfresh : w.answers i = [] := hside.polled.fresh (decide_eq_true hstate)
      rw [responses, hfresh] at hanswered
      exact absurd rfl hanswered
    · exact hside.ended hstate hempty
  · exact ⟨hclosed.answered.stream, hclosed.answered.final,
      fun hopen ↦ absurd hclosed.interest hopen⟩

/-- The connections of one loop, whose events come in any order, each with a request in one read
event and no more before it is answered: the shared objects see the requests one after the other as
they were read, and each connection carries the answers to its own requests and no other byte,
however little the socket takes at a time, and ends its stream exactly when the last byte is out. -/
theorem connections_kept_apart (hash : Bytes → ℕ) (homeBody directBody : Bytes)
    (gateway : GatewayState) (writeComplete highWater : Bool) (mark : ℕ)
    (events : List (ι × PollEvent)) {w : Server ι}
    (hrun : run (step hash (.render homeBody directBody))
      (accepted gateway writeComplete highWater mark) events = some w)
    (hanswerable : Along (step hash (.render homeBody directBody))
      (fun w a ↦ Answerable (w.at a.1) a.2) (accepted gateway writeComplete highWater mark)
      events) :
    ∃ log : List (ι × Exchange), log.map (fun e ↦ (e.1, e.2.1)) = requests events ∧
      run (logged (serve hash (.render homeBody directBody))) (gateway, [])
        (log.map fun e ↦ e.2.1) = some (w.gateway, log.map Prod.snd) ∧
      ∀ i, Receives (w.connection i) (due log i).flatten := by
  obtain ⟨log, hkept, hlog⟩ :=
    (kept_accepted hash gateway writeComplete highWater mark).run hanswerable hrun
  exact ⟨log, hlog, hkept.gateway, hkept.receives⟩

/-- The socket takes ten bytes of an answer at first, and all that is left later. -/
def reluctant : List (ℕ × PollEvent) :=
  [(0, { reading (ingestHead ++ ingestBody) with sendResult := .accepted 10 }),
    (1, reading (ingestHead ++ otherBody)),
    (0, { reading [] with
      revents := ⟨false, false, false, true⟩
      writeResult := .accepted (2 ^ 20) })]

theorem reluctant_kept_apart : ∃ w, run (step (fun _ ↦ 0) (.render [] []))
      (accepted emptyGateway false false 0) reluctant = some w ∧
    ∃ log : List (ℕ × Exchange), log.map (fun e ↦ (e.1, e.2.1)) = requests reluctant ∧
      run (logged (serve (fun _ ↦ 0) (.render [] []))) (emptyGateway, [])
        (log.map fun e ↦ e.2.1) = some (w.gateway, log.map Prod.snd) ∧
      ∀ i, Receives (w.connection i) (due log i).flatten := by
  have hsome : (run (step (fun _ ↦ 0) (.render [] [])) (accepted emptyGateway false false 0)
      reluctant).isSome = true := by decide +kernel
  obtain ⟨w, hrun⟩ := Option.isSome_iff_exists.1 hsome
  exact ⟨w, hrun, connections_kept_apart _ [] [] emptyGateway false false 0 reluctant hrun
    (by decide +kernel)⟩

end CppAiService.ManyConnections
