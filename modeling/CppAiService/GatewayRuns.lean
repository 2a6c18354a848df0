import CppAiService.CachedReplies
import CppAiService.GatewaySteps
import CppAiService.ResponseFraming

namespace CppAiService.GatewayRuns

open Bytes HttpCodec Gateway Foundation.Run Foundation.Log

structure Request where
  raw : Bytes
  env : RequestEnv

/-- At the epoch, with every library order as it is stored, and without a provider. -/
def quietEnv : RequestEnv :=
  ⟨lit "127.0.0.1", 0, [], fun _ ↦ 0, .written, .stable, .stored, .stored, fun _ ↦ .initFails⟩

def serve (hash : Bytes → ℕ) (pages : WebPages) (s : GatewayState) (r : Request) :
    Option (RouteResult × GatewayState) := handleRawRequest hash pages s r.raw r.env

abbrev Exchange := Request × RouteResult

def Request.userCall (r : Request) : Option UserStore.Call :=
  (parseHttpRequest r.raw).bind fun request ↦ Gateway.userCall request r.env

def Request.document (r : Request) : Option RagDocument :=
  (parseHttpRequest r.raw).bind ingestedDocument

def Request.chat (r : Request) : Option AiChatRequest := (parseHttpRequest r.raw).bind chatRequest

def documents (requests : List Request) : List RagDocument := requests.filterMap Request.document

def userCalls (requests : List Request) : List UserStore.Call :=
  requests.filterMap Request.userCall

def chats : InMemoryRagStore → List Request → List CachedReplies.Call
  | _, [] => []
  | ragStore, r :: requests =>
    (r.chat.map fun q ↦ ⟨q, r.env.chatEnv ragStore⟩).toList ++
      chats (r.document.elim ragStore ragStore.upsert) requests

def userResult (e : Exchange) : Option (UserStore.Call × RouteResult) :=
  e.1.userCall.map fun c ↦ (c, e.2)

def chatResult (e : Exchange) : Option (AiChatRequest × RouteResult) :=
  e.1.chat.map fun q ↦ (q, e.2)

def construct (config : AiClientConfig) (users : UserStore.Stored) : GatewayState where
  ragStore_ := InMemoryRagStore.seedDefaults ⟨[]⟩
  tools_ := .createDefault
  aiClient_ := .create (some .createDefault) config
  users_ := users.1
  userFile := users.2

/-- The server is where its parts are after the calls that its requests made of them, and the
answers are theirs. -/
structure Components (hash : Bytes → ℕ) (start s : GatewayState) (log : List Exchange) : Prop where
  renewed : AiClient.Renewed start.aiClient_ s.aiClient_
  tools : s.tools_ = start.tools_
  ragStore : s.ragStore_ = (documents (log.map Prod.fst)).foldl .upsert start.ragStore_
  users : ∃ history, run (logged UserStore.call) ((start.users_, start.userFile), [])
      (userCalls (log.map Prod.fst)) = some ((s.users_, s.userFile), history) ∧
    log.filterMap userResult = history.map fun e ↦ (e.1, userAnswer e.1 e.2)
  client : ∃ history, run (logged (CachedReplies.call hash)) (start.aiClient_, [])
      (chats start.ragStore_ (log.map Prod.fst)) = some (s.aiClient_, history) ∧
    log.filterMap chatResult = history.map fun e ↦ (e.1.request, chatAnswer e.2)

variable {hash : Bytes → ℕ} {pages : WebPages} {start s t : GatewayState} {log : List Exchange}
  {r : Request} {result : RouteResult}

theorem chats_concat (ragStore : InMemoryRagStore) (requests : List Request) (r : Request) :
    chats ragStore (requests ++ [r]) = chats ragStore requests ++
      (r.chat.map fun q ↦ ⟨q, r.env.chatEnv ((documents requests).foldl .upsert ragStore)⟩).toList := by
  induction requests generalizing ragStore with
  | nil => rw [List.nil_append, chats, chats, chats, List.append_nil, List.nil_append]; rfl
  | cons first requests ih =>
    rw [List.cons_append, chats, chats, ih, List.append_assoc]
    congr 3
    rw [documents, documents, List.filterMap_cons]
    cases first.document with
    | none => rfl
    | some document => rfl

def HandledRaw (hash : Bytes → ℕ) (s : GatewayState) (r : Request) (result : RouteResult)
    (t : GatewayState) : Prop :=
  Handled hash s r.userCall r.document (r.chat.map fun q ↦ (q, r.env.chatEnv s.ragStore_)) result t

theorem handled_raw (h : serve hash pages s r = some (result, t)) :
    HandledRaw hash s r result t := by
  rw [serve, handleRawRequest] at h
  rw [HandledRaw, Request.userCall, Request.document, Request.chat]
  cases hparse : parseHttpRequest r.raw with
  | none =>
    rw [hparse] at h
    obtain ⟨rfl, rfl⟩ := Prod.mk.inj (Option.some.inj h)
    exact ⟨rfl, rfl, rfl, rfl⟩
  | some request =>
    rw [hparse] at h
    exact handled h

theorem serve_possible (hash : Bytes → ℕ) (pages : WebPages)
    (hs : s.aiClient_.responseCache_.Serving) (r : Request) :
    ∃ result t, serve hash pages s r = some (result, t) := by
  have hsome : (serve hash pages s r).isSome = true := by
    rw [serve, handleRawRequest]
    cases parseHttpRequest r.raw with
    | none => rfl
    | some request => exact ResponseFraming.handleRequest_isSome request hash pages hs r.env
  obtain ⟨⟨result, t⟩, h⟩ := Option.isSome_iff_exists.1 hsome
  exact ⟨result, t, h⟩

theorem HandledRaw.renewed (h : HandledRaw hash s r result t)
    (hs : s.aiClient_.responseCache_.Serving) : AiClient.Renewed s.aiClient_ t.aiClient_ := by
  have hclient := h.client
  cases hchat : r.chat with
  | none =>
    rw [hchat] at hclient
    rw [show t.aiClient_ = s.aiClient_ from hclient]
    exact ⟨rfl, rfl, hs⟩
  | some q =>
    rw [hchat] at hclient
    obtain ⟨response, hcalled, -⟩ := hclient
    obtain ⟨response', client', hpossible, hrenewed⟩ :=
      AiClient.chat_possible hash hs (r.env.chatEnv s.ragStore_) q
    obtain ⟨-, rfl⟩ := Prod.mk.inj (Option.some.inj (hcalled.symm.trans hpossible))
    exact hrenewed

theorem Components.step (h : Components hash start s log) (hr : HandledRaw hash s r result t) :
    Components hash start t (log ++ [(r, result)]) where
  renewed := by
    have hrenewed := hr.renewed h.renewed.serving
    exact ⟨hrenewed.tools_.trans h.renewed.tools_, hrenewed.config_.trans h.renewed.config_,
      hrenewed.serving⟩
  tools := hr.tools.trans h.tools
  ragStore := by
    rw [hr.documents, h.ragStore, List.map_append, documents, documents, List.filterMap_append,
      List.foldl_append]
    simp only [List.map_cons, List.map_nil, List.filterMap_cons, List.filterMap_nil]
    cases r.document with
    | none => rfl
    | some document => rfl
  users := by
    obtain ⟨history, hrun, hresults⟩ := h.users
    have husers := hr.users
    rw [List.map_append, userCalls, List.filterMap_append, List.filterMap_append, hresults]
    simp only [List.map_cons, List.map_nil, List.filterMap_cons, List.filterMap_nil, userResult]
    cases hcall : r.userCall with
    | none =>
      rw [hcall] at husers
      refine ⟨history, ?_, ?_⟩
      · rw [List.append_nil, husers]
        exact hrun
      · exact List.append_nil _
    | some c =>
      rw [hcall] at husers
      obtain ⟨auth, hauth, rfl⟩ := husers
      refine ⟨history ++ [(c, auth)], logged_concat hrun hauth, ?_⟩
      rw [List.map_append]
      rfl
  client := by
    obtain ⟨history, hrun, hresults⟩ := h.client
    have hclient := hr.client
    rw [List.map_append, List.map_cons, List.map_nil, chats_concat, ← h.ragStore,
      List.filterMap_append, hresults]
    simp only [List.filterMap_cons, List.filterMap_nil, chatResult]
    cases hchat : r.chat with
    | none =>
      rw [hchat] at hclient
      refine ⟨history, ?_, ?_⟩
      · rw [Option.map_none, Option.toList_none, List.append_nil, hclient]
        exact hrun
      · exact List.append_nil _
    | some q =>
      rw [hchat] at hclient
      obtain ⟨response, hresponse, rfl⟩ := hclient
      have hcalled : CachedReplies.call hash s.aiClient_ ⟨q, r.env.chatEnv s.ragStore_⟩ =
          some (response, t.aiClient_) := hresponse
      refine ⟨history ++ [(⟨q, r.env.chatEnv s.ragStore_⟩, response)], ?_, ?_⟩
      · rw [Option.map_some, Option.toList_some]
        exact logged_concat hrun hcalled
      · rw [List.map_append]
        rfl

theorem components_start (hs : start.aiClient_.responseCache_.Serving) :
    Components hash start start [] where
  renewed := ⟨rfl, rfl, hs⟩
  tools := rfl
  ragStore := rfl
  users := ⟨[], rfl, rfl⟩
  client := ⟨[], rfl, rfl⟩

theorem Components.keeps {requests : List Request} {later : List Exchange}
    (h : Components hash start s log)
    (hrun : run (logged (serve hash pages)) (s, log) requests = some (t, later)) :
    Components hash start t later :=
  logged_inv (fun _ _ _ _ _ h hstep ↦ h.step (handled_raw hstep)) h hrun

theorem Components.goes_on (h : Components hash start s log) (pages : WebPages)
    (requests : List Request) : ∃ t later,
      run (logged (serve hash pages)) (s, log) requests = some (t, later) ∧
        later.map Prod.fst = log.map Prod.fst ++ requests ∧ Components hash start t later := by
  have hstep : ∀ (u : GatewayState × List Exchange) r, True → Components hash start u.1 u.2 →
      ∃ v, logged (serve hash pages) u r = some v ∧ Components hash start v.1 v.2 := by
    intro u r _ hu
    obtain ⟨result, t, ht⟩ := serve_possible hash pages hu.renewed.serving r
    exact ⟨_, by rw [logged, ht, Option.map_some], hu.step (handled_raw ht)⟩
  obtain ⟨⟨t, later⟩, hrun, ht⟩ := possible hstep (s := (s, log)) h
    (along_of_forall (fun _ _ ↦ trivial) _ requests)
  exact ⟨t, later, hrun, logged_actions hrun, ht⟩

theorem components_construct (hash : Bytes → ℕ) (config : AiClientConfig)
    (users : UserStore.Stored) :
    Components hash (construct config users) (construct config users) [] :=
  components_start (KHashLfuCache.create_serving _ (by decide) _ _)

/-- Whatever arrives, the server goes on, and it is nothing but its parts: the user store with its
file, the documents and the client each do what they would do on their own with the calls that the
requests make of them, and the answers are what they return. -/
theorem server_is_its_parts (hash : Bytes → ℕ) (pages : WebPages) (config : AiClientConfig)
    (users : UserStore.Stored) (requests : List Request) :
    ∃ s log, run (logged (serve hash pages)) (construct config users, []) requests =
        some (s, log) ∧
      log.map Prod.fst = requests ∧ Components hash (construct config users) s log :=
  (components_construct hash config users).goes_on pages requests

end CppAiService.GatewayRuns
