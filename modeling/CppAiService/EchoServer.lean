import CppAiService.Gateway
import CppAiService.OutputStream

namespace CppAiService

open Foundation.Run

/-- What all connections of the server share, and the answers one connection was given to
send, each with whether `send` took it. -/
structure Served where
  gateway : GatewayState
  answers : List (Bytes × Bool)

/-- The bytes one read event brings, what their handler meets outside the process, and how the
kernel takes the answer. -/
structure Segment where
  bytes : Bytes
  nonempty : bytes ≠ []
  env : RequestEnv
  result : WriteResult

namespace EchoServer

variable (hash : Bytes → ℕ) (pages : WebPages)

def onMessage (env : RequestEnv) (result : WriteResult) (c : TcpConnection) (s : Served) :
    Option (TcpConnection × Served) := do
  let (request, inputBuffer) := c.inputBuffer_.retrieveAllAsString
  let c := { c with inputBuffer_ := inputBuffer }
  let (routeResult, gateway) ← Gateway.handleRawRequest hash pages s.gateway request env
  let answers := s.answers ++ [(routeResult.response, c.connected)]
  let c ← c.send routeResult.response result
  return (c.shutdown, ⟨gateway, answers⟩)

def readEvent (w : TcpConnection × Served) (segment : Segment) : Option (TcpConnection × Served) :=
  w.1.handleRead (onMessage hash pages segment.env segment.result) w.2 (.read segment.bytes)

def answerEach : GatewayState → List Segment → Option (List Bytes × GatewayState)
  | s, [] => some ([], s)
  | s, segment :: segments => do
    let (routeResult, s) ← Gateway.handleRawRequest hash pages s segment.bytes segment.env
    let (responses, s) ← answerEach s segments
    return (routeResult.response :: responses, s)

def firstTaken : List Bytes → List (Bytes × Bool)
  | [] => []
  | response :: responses => (response, true) :: responses.map (·, false)

def emptied (c : TcpConnection) (segment : Segment) : TcpConnection :=
  { c with inputBuffer_ := (c.inputBuffer_.readFd segment.bytes).retrieveAll }

variable {hash pages} {c : TcpConnection} {s : Served}

theorem readEvent_eq (hidle : c.inputBuffer_.readable = []) (segment : Segment) :
    readEvent hash pages (c, s) segment =
      (Gateway.handleRawRequest hash pages s.gateway segment.bytes segment.env).bind
        fun (routeResult, gateway) ↦
          ((emptied c segment).send routeResult.response segment.result).map fun d ↦
            (d.shutdown, ⟨gateway, s.answers ++ [(routeResult.response, c.connected)]⟩) := by
  have hread : (c.inputBuffer_.readFd segment.bytes).readable = segment.bytes := by
    rw [Buffer.readable_readFd, hidle, List.nil_append]
  simp only [readEvent, TcpConnection.handleRead, segment.nonempty, ne_eq, not_false_eq_true,
    if_true, onMessage, Buffer.retrieveAllAsString_eq, hread, Option.map_eq_bind]
  rfl

theorem readEvent_of_not_connected (hidle : c.inputBuffer_.readable = [])
    (hc : c.connected = false) (segment : Segment) :
    readEvent hash pages (c, s) segment =
      (Gateway.handleRawRequest hash pages s.gateway segment.bytes segment.env).map
        fun (routeResult, gateway) ↦
          (emptied c segment, ⟨gateway, s.answers ++ [(routeResult.response, false)]⟩) := by
  have hconnected : ¬ (emptied c segment).connected = true := by
    change ¬ c.connected = true
    rw [hc]
    exact Bool.false_ne_true
  have hsend : ∀ buf, (emptied c segment).send buf segment.result = some (emptied c segment) :=
    fun _ ↦ if_neg hconnected
  have hshutdown : (emptied c segment).shutdown = emptied c segment := if_neg hconnected
  rw [readEvent_eq hidle]
  cases Gateway.handleRawRequest hash pages s.gateway segment.bytes segment.env with
  | none => rfl
  | some answer => simp only [Option.bind_some, hsend, Option.map_some, hshutdown, hc]

theorem run_of_not_connected (hidle : c.inputBuffer_.readable = []) (hc : c.connected = false)
    (segments : List Segment) :
    run (readEvent hash pages) (c, s) segments =
      (answerEach hash pages s.gateway segments).map fun (responses, gateway) ↦
        (segments.foldl emptied c, ⟨gateway, s.answers ++ responses.map (·, false)⟩) := by
  induction segments generalizing c s with
  | nil =>
    simp only [answerEach, Option.map_some, List.map_nil, List.append_nil]
    rfl
  | cons segment segments ih =>
    have hidle' : (emptied c segment).inputBuffer_.readable = [] := Buffer.readable_retrieveAll _
    rw [run_cons, readEvent_of_not_connected hidle hc, answerEach]
    cases Gateway.handleRawRequest hash pages s.gateway segment.bytes segment.env with
    | none => rfl
    | some answer =>
      simp only [Option.map_some, Option.bind_some, Option.bind_eq_bind]
      rw [ih hidle' hc]
      cases answerEach hash pages answer.2 segments with
      | none => rfl
      | some answers =>
        simp only [Option.map_some, Option.bind_some, Option.pure_def, List.map_cons,
          List.append_assoc, List.singleton_append, List.foldl_cons]

theorem emptied_delivering {sent : Bytes} (h : c.Delivering sent) (segment : Segment) :
    (emptied c segment).Delivering sent :=
  ⟨h.ready.congr rfl rfl rfl, h.stream, h.ended, h.final⟩

/-- A first answer that the kernel refuses for good is lost. -/
theorem emptied_send_peerGone (hc : c.connected = true) (hdelivering : c.Delivering [])
    (segment : Segment) (buf : Bytes) :
    (emptied c segment).send buf .peerGone = some (emptied c segment) := by
  have hemptied := emptied_delivering hdelivering segment
  obtain ⟨-, hempty⟩ := List.append_eq_nil_iff.1 hemptied.stream
  have hwriting : (emptied c segment).channel_.isWriting = false :=
    Bool.eq_false_iff.2 fun h ↦ hemptied.ready.writing_iff.1 h hempty
  have hdirect := TcpConnection.sendInLoop_peerGone
    ⟨hwriting, (Buffer.readableBytes_eq_zero_iff _).2 hempty⟩
  exact (if_pos hc).trans (hdirect buf)

theorem readEvent_of_connected (hidle : c.inputBuffer_.readable = []) (hc : c.connected = true)
    (hdelivering : c.Delivering []) {segment : Segment} {routeResult : RouteResult}
    {gateway : GatewayState}
    (hanswer : Gateway.handleRawRequest hash pages s.gateway segment.bytes segment.env =
      some (routeResult, gateway)) :
    ∃ d, readEvent hash pages (c, s) segment =
        some (d, ⟨gateway, s.answers ++ [(routeResult.response, true)]⟩) ∧
      d.inputBuffer_.readable = [] ∧ d.connected = false ∧
      d.Delivering (if segment.result = .peerGone then [] else routeResult.response) := by
  have hemptied := emptied_delivering hdelivering segment
  have hsend : ∃ d, (emptied c segment).send routeResult.response segment.result = some d ∧
      d.inputBuffer_ = (emptied c segment).inputBuffer_ ∧
      d.Delivering (if segment.result = .peerGone then [] else routeResult.response) := by
    by_cases hresult : segment.result = .peerGone
    · rw [hresult, if_pos rfl]
      exact ⟨_, emptied_send_peerGone hc hdelivering segment _, rfl, hemptied⟩
    · obtain ⟨d, hd, hflows, hsent⟩ := hemptied.send hc routeResult.response hresult
      rw [if_neg hresult]
      exact ⟨d, hd, hflows.inputBuffer_, hsent⟩
  obtain ⟨d, hd, hinput, hsent⟩ := hsend
  refine ⟨d.shutdown, ?_, ?_, d.shutdown_connected, hsent.shutdown⟩
  · rw [readEvent_eq hidle, hanswer, Option.bind_some]
    simp only [hd, Option.map_some, hc]
  · rw [d.shutdown_inputBuffer, hinput]
    exact Buffer.readable_retrieveAll _

theorem foldl_emptied (c : TcpConnection) (segments : List Segment) :
    (segments.foldl emptied c).trace = c.trace ∧
      (segments.foldl emptied c).outputBuffer_ = c.outputBuffer_ := by
  induction segments generalizing c with
  | nil => exact ⟨rfl, rfl⟩
  | cons segment segments ih => exact ih (emptied c segment)

/-- Each read event is answered as a request of its own, and the first answer is the only one
that `send` takes. -/
theorem segments_answered_apart (hash : Bytes → ℕ) (pages : WebPages)
    (writeComplete highWater : Bool) (mark : ℕ) (gateway : GatewayState)
    (segments : List Segment) :
    (answerEach hash pages gateway segments = none →
      run (readEvent hash pages) (.established writeComplete highWater mark, ⟨gateway, []⟩)
        segments = none) ∧
    ∀ responses gateway', answerEach hash pages gateway segments = some (responses, gateway') →
      ∃ c, run (readEvent hash pages) (.established writeComplete highWater mark, ⟨gateway, []⟩)
          segments = some (c, ⟨gateway', firstTaken responses⟩) ∧
        ((∀ segment ∈ segments, segment.result ≠ .peerGone) →
          written c.trace ++ c.outputBuffer_.readable = responses.headD []) := by
  have hidle : (TcpConnection.established writeComplete highWater mark).inputBuffer_.readable =
      [] := Buffer.readable_create kInitialSize
  have hstart := TcpConnection.delivering_established writeComplete highWater mark
  cases segments with
  | nil =>
    constructor
    · intro h
      cases h
    · intro responses gateway' h
      obtain ⟨rfl, rfl⟩ := Prod.mk.inj (Option.some.inj h)
      exact ⟨_, rfl, fun _ ↦ hstart.stream⟩
  | cons segment segments =>
    cases hanswer : Gateway.handleRawRequest hash pages gateway segment.bytes segment.env with
    | none =>
      have hnone : readEvent hash pages (.established writeComplete highWater mark, ⟨gateway, []⟩)
          segment = none := by rw [readEvent_eq hidle, hanswer, Option.bind_none]
      simp only [answerEach, hanswer, run_cons, hnone, Option.bind_eq_bind, Option.bind_none]
      exact ⟨fun _ ↦ trivial, fun _ _ h ↦ by cases h⟩
    | some answer =>
      obtain ⟨routeResult, answered⟩ := answer
      obtain ⟨d, hd, hidle', hc, hdelivering⟩ := readEvent_of_connected (s := ⟨gateway, []⟩) hidle
        rfl hstart hanswer
      simp only [answerEach, hanswer, run_cons, hd, Option.bind_eq_bind, Option.bind_some,
        run_of_not_connected hidle' hc, List.nil_append]
      cases hrest : answerEach hash pages answered segments with
      | none => exact ⟨fun _ ↦ rfl, fun _ _ h ↦ by cases h⟩
      | some rest =>
        constructor
        · intro h
          cases h
        · intro responses gateway' h
          obtain ⟨rfl, rfl⟩ := Prod.mk.inj (Option.some.inj h)
          obtain ⟨htrace, houtput⟩ := foldl_emptied d segments
          refine ⟨_, rfl, fun hresults ↦ ?_⟩
          rw [htrace, houtput, hdelivering.stream]
          exact if_neg (hresults segment List.mem_cons_self)

section Ingest

open Bytes HttpCodec Gateway

def ingestHead : Bytes := lit "POST /rag/ingest HTTP/1.1\r\nContent-Length: 36\r\n\r\n"

def ingestBody : Bytes := lit "\x7b\"id\":\"a\",\"title\":\"b\",\"content\":\"c\"\x7d"

def quietSegment (bytes : Bytes) (nonempty : bytes ≠ []) : Segment where
  bytes := bytes
  nonempty := nonempty
  env := ⟨lit "127.0.0.1", 0, [], fun _ ↦ 0, .written, .stable, .stored, .stored,
    fun _ ↦ .initFails⟩
  result := .accepted (2 ^ 20)

def emptyGateway : GatewayState :=
  ⟨⟨[]⟩, ⟨[]⟩, .create none ⟨lit "stub", [], [], [], false, 64, 20⟩, .create [] 86400 5, none⟩

def ingested (segments : List Segment) : Option (List (Bytes × Bool) × List RagDocument) :=
  (run (readEvent (fun _ ↦ 0) ⟨[], []⟩) (.established false false 0, ⟨emptyGateway, []⟩)
    segments).map fun w ↦ (w.2.answers, w.2.gateway.ragStore_.documents_)

/-- The document of a complete request is stored when it arrives in one event, and refused and
lost when its head and its body arrive in two. -/
theorem split_request_refused :
    (parseHttpRequest (ingestHead ++ ingestBody)).map
        (fun r ↦ (r.headers.lookup (lit "content-length"), r.body)) =
      some (some (decimal ingestBody.length), ingestBody) ∧
    ingested [quietSegment (ingestHead ++ ingestBody) (by decide)] =
      some ([(jsonResponse (lit "200 OK")
        (lit "\x7b\"ok\":true,\"id\":\"a\",\"title\":\"b\"\x7d"), true)],
        [⟨lit "a", lit "b", lit "c"⟩]) ∧
    ingested [quietSegment ingestHead (by decide), quietSegment ingestBody (by decide)] =
      some ([(jsonResponse (lit "400 Bad Request") (jsonError
          (lit "request body must contain non-empty string fields id, title, and content")), true),
        (jsonResponse (lit "400 Bad Request") (jsonError (lit "malformed HTTP request")), false)],
        []) := by
  refine ⟨?_, ?_, ?_⟩
  all_goals decide +kernel

end Ingest

end EchoServer

end CppAiService
