import CppAiService.Foundation.Related
import CppAiService.HttpSessions
import CppAiService.InterleavedRequests

namespace CppAiService.Gateway

open Bytes HttpCodec

variable {hash : Bytes → ℕ} {pages : WebPages} {s s' t : GatewayState} {request : HttpRequest}
  {env : RequestEnv} {result : RouteResult}

theorem handleRegisterRequest_refused (hroute : route request.path = .register)
    (hnone : userCall request env = none) (env' : RequestEnv) (users users' : UserStore)
    (file file' : Option Bytes) :
    (handleRegisterRequest request users' file' env').1 =
      (handleRegisterRequest request users file env).1 := by
  rw [userCall_register hroute, Option.map_eq_none_iff] at hnone
  rw [handleRegisterRequest_elim, handleRegisterRequest_elim, hnone]
  rfl

theorem handleLoginRequest_refused (hroute : route request.path = .login)
    (hnone : userCall request env = none) (env' : RequestEnv) (users users' : UserStore) :
    (handleLoginRequest request users' env').1 = (handleLoginRequest request users env).1 := by
  rw [userCall_login hroute, Option.map_eq_none_iff] at hnone
  rw [handleLoginRequest_elim, handleLoginRequest_elim, hnone]
  rfl

theorem handleMeRequest_refused (hroute : route request.path = .me)
    (hnone : userCall request env = none) (env' : RequestEnv) (users users' : UserStore) :
    (handleMeRequest request users' env').1 = (handleMeRequest request users env).1 := by
  rw [userCall, hroute] at hnone
  dsimp only at hnone
  rw [handleMeRequest, handleMeRequest]
  by_cases hmethod : request.method = lit "GET"
  · rw [if_pos hmethod] at hnone
    cases hnone
  · rw [if_pos hmethod, if_pos hmethod]

/-- The objects as far as the requests that call nothing see them. -/
structure SameOutside (s s' : GatewayState) : Prop where
  tools : s'.tools_ = s.tools_
  ragStore : s'.ragStore_ = s.ragStore_
  client : s'.aiClient_.configJson = s.aiClient_.configJson
  users : s'.users_.configJson = s.users_.configJson

/-- Neither a call of the user store nor a chat: the answer is made of what both servers show. -/
theorem handleRequest_same (hash : Bytes → ℕ) (pages : WebPages)
    (huser : userCall request env = none)
    (hchat : chatRequest request = none) (hs : SameOutside s s') (curl : CurlRequest → CurlOutcome)
    (device : ℕ → UInt32) :
    (handleRequest hash pages s' request { env with curl := curl, device := device }).map Prod.fst =
      (handleRequest hash pages s request env).map Prod.fst := by
  rw [handleRequest_eq, handleRequest_eq]
  cases hroute : route request.path with
  | register => exact congrArg some (handleRegisterRequest_refused hroute huser ..)
  | login => exact congrArg some (handleLoginRequest_refused hroute huser ..)
  | me => exact congrArg some (handleMeRequest_refused hroute huser ..)
  | chat =>
    obtain ⟨refused, hrefused⟩ := handleChatRequest_refused hash hroute hchat
    rw [handleRoute, handleRoute, hrefused, hrefused]
    rfl
  | tools => rw [handleRoute, handleRoute, hs.tools]; rfl
  | health =>
    rw [handleRoute, handleRoute, handleHealthRequest, handleHealthRequest, hs.client, hs.users]
    rfl
  | mcpTools => rw [handleRoute, handleRoute, hs.tools]; rfl
  | mcpCall => rw [handleRoute, handleRoute, hs.tools, hs.ragStore]; rfl
  | ragIngest => rw [handleRoute, handleRoute, hs.ragStore]; rfl
  | direct => rfl
  | home => rfl
  | notFound => rfl

end CppAiService.Gateway

namespace CppAiService.Secrets

open Bytes HttpCodec Gateway GatewayRuns AiClient UserStore
open Foundation.Run Foundation.Log

def SameSettings (config config' : AiClientConfig) : Prop :=
  config' = { config with apiKey := config'.apiKey }

/-- The two records are of one account, and the passwords that matter open both or neither. -/
structure SameAccount (tried : Bytes → Prop) (user user' : StoredUser) : Prop where
  username : user'.username = user.username
  role : user'.role = user.role
  opens : ∀ password, tried password →
    (demoHashPassword user'.salt password = user'.passwordHash ↔
      demoHashPassword user.salt password = user.passwordHash)

structure SameAccounts (tried : Bytes → Prop) (users users' : Map Bytes StoredUser) : Prop where
  count : users'.keys.length = users.keys.length
  account : ∀ username, Option.Rel (SameAccount tried) (users.lookup username)
    (users'.lookup username)

/-- The same store but for salts and password hashes. -/
structure SameStore (tried : Bytes → Prop) (s s' : UserStore) : Prop where
  same : s' = { s with users_ := s'.users_ }
  accounts : SameAccounts tried s.users_ s'.users_

structure SameClient (client client' : AiClient) : Prop where
  tools_ : client'.tools_ = client.tools_
  responseCache_ : client'.responseCache_ = client.responseCache_
  config_ : SameSettings client.config_ client'.config_

structure SameServer (tried : Bytes → Prop) (s s' : GatewayState) : Prop where
  tools : s'.tools_ = s.tools_
  ragStore : s'.ragStore_ = s.ragStore_
  client : SameClient s.aiClient_ s'.aiClient_
  users : SameStore tried s.users_ s'.users_

/-- The same call. A registration may draw another salt. -/
inductive SameCall (tried : Bytes → Prop) : Call → Call → Prop
  | registerUser {username password inviteCode clientId : Bytes} {now : ℤ}
      {device device' : ℕ → UInt32} {outcome : AppendOutcome}
      (account : SameAccount tried (newUser username password device)
        (newUser username password device')) :
      SameCall tried (.registerUser username password inviteCode clientId now device outcome)
        (.registerUser username password inviteCode clientId now device' outcome)
  | login {username password : Bytes} {now : ℤ} {device : ℕ → UInt32} (htried : tried password) :
      SameCall tried (.login username password now device) (.login username password now device)
  | authenticateBearerToken {header : Bytes} {now : ℤ} :
      SameCall tried (.authenticateBearerToken header now) (.authenticateBearerToken header now)

/-- The same request, and a provider that answers the same whichever key it is sent. -/
structure SameRequest (tried : Bytes → Prop) (config config' : AiClientConfig)
    (r r' : Request) : Prop where
  raw : r'.raw = r.raw
  env : r'.env = { r.env with curl := r'.env.curl, device := r'.env.device }
  userCall : Option.Rel (SameCall tried) r.userCall r'.userCall
  curl : ∀ q, r'.env.curl (curlRequest config' q) = r.env.curl (curlRequest config q)

variable {tried : Bytes → Prop} {users users' : Map Bytes StoredUser} {u u' : UserStore}
  {username password : Bytes} {config config' : AiClientConfig}

theorem keys_length_insert {K V : Type} [DecidableEq K] (m : Map K V) (k : K) (v : V) :
    (m.insert k v).keys.length =
      if k ∈ m.keys then m.keys.length - 1 + 1 else m.keys.length + 1 := by
  rw [AList.keys_insert, List.length_cons, List.length_erase]
  split <;> rfl

theorem SameAccounts.isSome (h : SameAccounts tried users users') (username : Bytes) :
    (users'.lookup username).isSome = (users.lookup username).isSome :=
  (Foundation.Related.isSome_eq (h.account username)).symm

theorem SameAccounts.insert (h : SameAccounts tried users users') (username : Bytes)
    {user user' : StoredUser} (huser : SameAccount tried user user') :
    SameAccounts tried (users.insert username user) (users'.insert username user') where
  count := by
    have hmem : username ∈ users'.keys ↔ username ∈ users.keys := by
      rw [← AList.mem_keys, ← AList.mem_keys, ← AList.lookup_isSome, ← AList.lookup_isSome,
        h.isSome]
    rw [keys_length_insert, keys_length_insert, h.count]
    by_cases hold : username ∈ users.keys
    · rw [if_pos hold, if_pos (hmem.2 hold)]
    · rw [if_neg hold, if_neg (mt hmem.1 hold)]
  account name := by
    by_cases hname : name = username
    · subst hname
      rw [AList.lookup_insert, AList.lookup_insert]
      exact .some huser
    · rw [AList.lookup_insert_ne hname, AList.lookup_insert_ne hname]
      exact h.account name

theorem SameStore.configJson (h : SameStore tried u u') : u'.configJson = u.configJson := by
  rw [h.same, UserStore.configJson, UserStore.configJson]
  dsimp only
  rw [h.accounts.count]

theorem SameStore.login (h : SameStore tried u u') (username : Bytes) (htried : tried password)
    (now : ℤ) (device : ℕ → UInt32) :
    (u'.login username password now device).1 = (u.login username password now device).1 ∧
      SameStore tried (u.login username password now device).2
        (u'.login username password now device).2 := by
  obtain ⟨hsame, haccounts⟩ := h
  generalize u'.users_ = users' at hsame haccounts
  subst hsame
  rw [UserStore.login, UserStore.login]
  dsimp only
  have haccount := haccounts.account username
  cases hfound : u.users_.lookup username with
  | none =>
    rw [hfound] at haccount
    cases hfound' : users'.lookup username with
    | none => exact ⟨rfl, rfl, haccounts⟩
    | some found' =>
      rw [hfound'] at haccount
      cases haccount
  | some found =>
    rw [hfound] at haccount
    cases hfound' : users'.lookup username with
    | none =>
      rw [hfound'] at haccount
      cases haccount
    | some found' =>
      rw [hfound'] at haccount
      obtain ⟨hsame⟩ := haccount
      by_cases hopens : demoHashPassword found.salt password = found.passwordHash
      · have hopens' := (hsame.opens password htried).2 hopens
        dsimp only
        rw [if_neg (not_not.2 hopens), if_neg (not_not.2 hopens')]
        simp only [createSessionLocked, hsame.username, hsame.role]
        exact ⟨trivial, rfl, haccounts⟩
      · have hopens' := mt (hsame.opens password htried).1 hopens
        dsimp only
        rw [if_pos hopens, if_pos hopens']
        exact ⟨rfl, rfl, haccounts⟩

theorem SameStore.registerUser (h : SameStore tried u u') (file file' : Option Bytes)
    (inviteCode clientId : Bytes) (now : ℤ) {device device' : ℕ → UInt32}
    (haccount : SameAccount tried (newUser username password device)
      (newUser username password device')) (outcome : AppendOutcome) :
    (u'.registerUser file' username password inviteCode clientId now device' outcome).1 =
        (u.registerUser file username password inviteCode clientId now device outcome).1 ∧
      SameStore tried
        (u.registerUser file username password inviteCode clientId now device outcome).2.1
        (u'.registerUser file' username password inviteCode clientId now device' outcome).2.1 := by
  obtain ⟨hsame, haccounts⟩ := h
  generalize u'.users_ = users' at hsame haccounts
  subst hsame
  unfold UserStore.registerUser
  cases (validateUsername username).orElse fun _ ↦ validatePassword password with
  | some error => exact ⟨rfl, rfl, haccounts⟩
  | none =>
    obtain ⟨attempts, hlimited⟩ := isRegistrationLimitedLocked_frame u clientId now
    have hlimited' : ({ u with users_ := users' } : UserStore).isRegistrationLimitedLocked
        clientId now = ((u.isRegistrationLimitedLocked clientId now).1,
          { (u.isRegistrationLimitedLocked clientId now).2 with users_ := users' }) := by
      unfold isRegistrationLimitedLocked
      dsimp only
      split_ifs <;> rfl
    rw [hlimited']
    generalize u.isRegistrationLimitedLocked clientId now = limited at hlimited ⊢
    obtain ⟨limited, v⟩ := limited
    obtain rfl : v = _ := hlimited
    dsimp only
    by_cases hl : limited = true
    · rw [if_pos hl, if_pos hl]
      exact ⟨rfl, rfl, haccounts⟩
    rw [if_neg hl, if_neg hl]
    by_cases hinvite : u.inviteCode_ ≠ [] ∧ inviteCode ≠ u.inviteCode_
    · rw [if_pos hinvite, if_pos hinvite]
      exact ⟨rfl, rfl, haccounts⟩
    rw [if_neg hinvite, if_neg hinvite, haccounts.isSome]
    by_cases hknown : (u.users_.lookup username).isSome = true
    · rw [if_pos hknown, if_pos hknown]
      exact ⟨rfl, rfl, haccounts⟩
    rw [if_neg hknown, if_neg hknown]
    cases outcome with
    | written => exact ⟨rfl, rfl, haccounts.insert _ haccount⟩
    | noDirectory => exact ⟨rfl, rfl, haccounts⟩
    | openFails => exact ⟨rfl, rfl, haccounts⟩
    | writeFails written => exact ⟨rfl, rfl, haccounts⟩

theorem SameStore.authenticateBearerToken (h : SameStore tried u u') (header : Bytes) (now : ℤ) :
    (u'.authenticateBearerToken header now).1 = (u.authenticateBearerToken header now).1 ∧
      SameStore tried (u.authenticateBearerToken header now).2
        (u'.authenticateBearerToken header now).2 := by
  obtain ⟨hsame, haccounts⟩ := h
  generalize u'.users_ = users' at hsame haccounts
  subst hsame
  unfold UserStore.authenticateBearerToken
  dsimp only
  split_ifs
  · exact ⟨rfl, rfl, haccounts⟩
  · exact ⟨rfl, rfl, haccounts⟩
  · cases u.sessions_.lookup (trim (header.drop (lit "Bearer ").length)) with
    | none => exact ⟨rfl, rfl, haccounts⟩
    | some found =>
      dsimp only
      split_ifs <;> exact ⟨rfl, rfl, haccounts⟩

theorem SameStore.call (h : SameStore tried u u') (file file' : Option Bytes) {c c' : Call}
    (hc : SameCall tried c c') {auth : AuthResult} {after : Stored}
    (hcall : UserStore.call (u, file) c = some (auth, after)) :
    ∃ after', UserStore.call (u', file') c' = some (auth, after') ∧
      SameStore tried after.1 after'.1 := by
  cases hc with
  | @registerUser username password inviteCode clientId now device device' outcome haccount =>
    obtain ⟨hresult, hsame⟩ :=
      h.registerUser file file' inviteCode clientId now haccount outcome
    have hboth : u.registerUser file username password inviteCode clientId now device outcome =
        (auth, after) := Option.some.inj hcall
    rw [hboth] at hresult hsame
    exact ⟨(u'.registerUser file' username password inviteCode clientId now device' outcome).2,
      congrArg some (Prod.ext hresult rfl), hsame⟩
  | @login username password now device htried =>
    obtain ⟨hresult, hsame⟩ := h.login username htried now device
    rw [call_login, Option.some.injEq, Prod.mk.injEq] at hcall
    obtain ⟨rfl, rfl⟩ := hcall
    exact ⟨_, by rw [call_login, hresult], hsame⟩
  | @authenticateBearerToken header now =>
    obtain ⟨hresult, hsame⟩ := h.authenticateBearerToken header now
    rw [call_authenticate, Option.some.injEq, Prod.mk.injEq] at hcall
    obtain ⟨rfl, rfl⟩ := hcall
    exact ⟨_, by rw [call_authenticate, hresult], hsame⟩

theorem SameCall.userAnswer {c c' : Call} (h : SameCall tried c c') (auth : AuthResult) :
    Gateway.userAnswer c' auth = Gateway.userAnswer c auth := by
  cases h <;> rfl

theorem SameSettings.callOpenAiCompatible (h : SameSettings config config') (q : AiChatRequest)
    {curl curl' : CurlRequest → CurlOutcome}
    (hcurl : curl' (curlRequest config' q) = curl (curlRequest config q)) :
    AiClient.callOpenAiCompatible config' q curl' =
      AiClient.callOpenAiCompatible config q curl := by
  unfold AiClient.callOpenAiCompatible
  rw [hcurl, h]
  rfl

theorem SameSettings.chat (h : SameSettings config config') (hash : Bytes → ℕ)
    (tools : Option ToolRegistry) (cache : KHashLfuCache Bytes Bytes) (env : ChatEnv)
    (q : AiChatRequest) {curl : CurlRequest → CurlOutcome}
    (hcurl : curl (curlRequest config' q) = env.curl (curlRequest config q)) :
    (⟨tools, config', cache⟩ : AiClient).chat hash { env with curl := curl } q =
      ((⟨tools, config, cache⟩ : AiClient).chat hash env q).map fun (response, client) ↦
        (response, { client with config_ := config' }) := by
  have hnet := h.callOpenAiCompatible q hcurl
  have hkey : cacheKey config' q = cacheKey config q := by rw [h]; rfl
  have hprovider : shouldUseNetworkProvider config' = shouldUseNetworkProvider config := by
    rw [h]; rfl
  have hbody : ∀ reply hit,
      buildChatBody config' q reply hit = buildChatBody config q reply hit := by
    intro reply hit
    rw [h]
    rfl
  by_cases htool : q.tool = []
  · simp only [AiClient.chat, htool, hkey, hprovider, hbody, hnet, ne_eq, not_true_eq_false,
      if_false, Option.bind_eq_bind]
    cases cache.get hash (cacheKey config q) env.getOrder with
    | none => rfl
    | some got =>
      obtain ⟨cachedReply, cache⟩ := got
      cases cachedReply with
      | some reply => rfl
      | none =>
        dsimp only [Option.bind_some]
        cases shouldUseNetworkProvider config with
        | false =>
          cases cache.put hash (cacheKey config q) (makeStubReply q.message) env.putOrder <;> rfl
        | true =>
          simp only [if_true]
          split
          · next reply _ =>
            cases cache.put hash (cacheKey config q) reply env.putOrder <;> rfl
          · rfl
  · rw [chat_of_tool htool, chat_of_tool htool, h]
    rfl

theorem SameClient.chat {client client' after : AiClient} {response : AiChatResponse}
    (h : SameClient client client') (hc : client.responseCache_.Serving) (hash : Bytes → ℕ)
    (env : ChatEnv) (q : AiChatRequest)
    {curl : CurlRequest → CurlOutcome}
    (hcurl : curl (curlRequest client'.config_ q) = env.curl (curlRequest client.config_ q))
    (hchat : client.chat hash env q = some (response, after)) :
    ∃ after', client'.chat hash { env with curl := curl } q = some (response, after') ∧
      SameClient after after' := by
  obtain ⟨tools, config, cache⟩ := client
  obtain ⟨tools', config', cache'⟩ := client'
  obtain ⟨rfl, rfl, hconfig⟩ := h
  obtain ⟨response', after', hpossible, hrenewed⟩ := chat_possible hash hc env q
  obtain ⟨-, rfl⟩ := Prod.mk.inj (Option.some.inj (hchat.symm.trans hpossible))
  rw [hconfig.chat hash _ _ env q hcurl, hchat]
  refine ⟨_, rfl, rfl, rfl, ?_⟩
  rw [hrenewed.config_]
  exact hconfig

variable {hash : Bytes → ℕ} {pages : WebPages} {s s' t t' : GatewayState} {r r' : Request}
  {result result' : RouteResult}

theorem SameRequest.calls (h : SameRequest tried config config' r r') :
    r'.document = r.document ∧ r'.chat = r.chat := by
  rw [Request.document, Request.document, Request.chat, Request.chat, h.raw]
  exact ⟨rfl, rfl⟩

theorem SameServer.users_after (h : SameServer tried s s')
    (hcall : Option.Rel (SameCall tried) r.userCall r'.userCall)
    (hr : HandledRaw hash s r result t) (hr' : HandledRaw hash s' r' result' t') :
    SameStore tried t.users_ t'.users_ ∧ (r.userCall ≠ none → result' = result) := by
  have husers := hr.users
  have husers' := hr'.users
  generalize r.userCall = c at hcall husers
  generalize r'.userCall = c' at hcall husers'
  cases hcall with
  | none =>
    obtain ⟨hsame, -⟩ := Prod.mk.inj husers
    obtain ⟨hsame', -⟩ := Prod.mk.inj husers'
    rw [hsame, hsame']
    exact ⟨h.users, fun hne ↦ absurd rfl hne⟩
  | some hc =>
    obtain ⟨auth, hauth, rfl⟩ := husers
    obtain ⟨auth', hauth', rfl⟩ := husers'
    obtain ⟨after', hafter, hstore⟩ := h.users.call s.userFile s'.userFile hc hauth
    obtain ⟨rfl, rfl⟩ := Prod.mk.inj (Option.some.inj (hauth'.symm.trans hafter))
    exact ⟨hstore, fun _ ↦ hc.userAnswer _⟩

theorem SameServer.client_after (h : SameServer tried s s')
    (hs : s.aiClient_.responseCache_.Serving)
    (hsame : SameRequest tried s.aiClient_.config_ s'.aiClient_.config_ r r')
    (hr : HandledRaw hash s r result t) (hr' : HandledRaw hash s' r' result' t') :
    SameClient t.aiClient_ t'.aiClient_ ∧ (r.chat ≠ none → result' = result) := by
  have hclient := hr.client
  have hclient' := hr'.client
  rw [hsame.calls.2] at hclient'
  cases hq : r.chat with
  | none =>
    rw [hq] at hclient hclient'
    rw [show t.aiClient_ = s.aiClient_ from hclient, show t'.aiClient_ = s'.aiClient_ from hclient']
    exact ⟨h.client, fun hne ↦ absurd rfl hne⟩
  | some q =>
    rw [hq] at hclient hclient'
    obtain ⟨response, hchat, rfl⟩ := hclient
    obtain ⟨response', hchat', rfl⟩ := hclient'
    obtain ⟨after', hafter, hcl⟩ :=
      h.client.chat hs hash (r.env.chatEnv s.ragStore_) q (hsame.curl q) hchat
    have henv : r'.env.chatEnv s'.ragStore_ =
        { r.env.chatEnv s.ragStore_ with curl := r'.env.curl } := by
      rw [h.ragStore, hsame.env]
      rfl
    rw [henv] at hchat'
    obtain ⟨rfl, rfl⟩ := Prod.mk.inj (Option.some.inj (hchat'.symm.trans hafter))
    exact ⟨hcl, fun _ ↦ rfl⟩

/-- One request finds two servers that differ in their secrets, and leaves them so, with one
answer. -/
theorem SameServer.serve (h : SameServer tried s s') (hs : s.aiClient_.responseCache_.Serving)
    (hsame : SameRequest tried s.aiClient_.config_ s'.aiClient_.config_ r r')
    (hserve : serve hash pages s r = some (result, t)) :
    ∃ t', GatewayRuns.serve hash pages s' r' = some (result, t') ∧ SameServer tried t t' ∧
      Renewed s.aiClient_ t.aiClient_ ∧ Renewed s'.aiClient_ t'.aiClient_ := by
  have hs' : s'.aiClient_.responseCache_.Serving := by rwa [h.client.responseCache_]
  obtain ⟨result', t', hserve'⟩ := serve_possible hash pages hs' r'
  have hr := handled_raw hserve
  have hr' := handled_raw hserve'
  obtain ⟨hdocument, -⟩ := hsame.calls
  obtain ⟨husers, huser⟩ := h.users_after hsame.userCall hr hr'
  obtain ⟨hclient, hchat⟩ := h.client_after hs hsame hr hr'
  have hresult : result' = result := by
    by_cases hu : r.userCall = none
    · by_cases hq : r.chat = none
      · have houtside : SameOutside s s' := by
          refine ⟨h.tools, h.ragStore, ?_, h.users.configJson⟩
          rw [AiClient.configJson, AiClient.configJson, h.client.config_]
        rw [GatewayRuns.serve, handleRawRequest] at hserve hserve'
        rw [hsame.raw, hsame.env] at hserve'
        rw [Request.userCall] at hu
        rw [Request.chat] at hq
        cases hparse : parseHttpRequest r.raw with
        | none =>
          rw [hparse] at hserve hserve'
          obtain ⟨rfl, -⟩ := Prod.mk.inj (Option.some.inj hserve)
          exact (Prod.mk.inj (Option.some.inj hserve')).1.symm
        | some request =>
          rw [hparse] at hserve hserve' hu hq
          have heq := handleRequest_same hash pages hu hq houtside r'.env.curl r'.env.device
          dsimp only at hserve hserve'
          rw [hserve, hserve', Option.map_some, Option.map_some] at heq
          exact Option.some.inj heq
      · exact hchat hq
    · exact huser hu
  subst hresult
  refine ⟨t', hserve', ⟨?_, ?_, hclient, husers⟩, hr.renewed hs, hr'.renewed hs'⟩
  · rw [hr.tools, hr'.tools, h.tools]
  · rw [hr.documents, hr'.documents, h.ragStore, hdocument]

theorem SameServer.run {requests requests' : List Request} {log log' later : List Exchange}
    (h : SameServer tried s s') (hs : s.aiClient_.responseCache_.Serving)
    (hconfig : s.aiClient_.config_ = config) (hconfig' : s'.aiClient_.config_ = config')
    (hlog : log'.map Prod.snd = log.map Prod.snd)
    (hsame : List.Forall₂ (SameRequest tried config config') requests requests')
    (hrun : run (logged (GatewayRuns.serve hash pages)) (s, log) requests = some (t, later)) :
    ∃ t' later', run (logged (GatewayRuns.serve hash pages)) (s', log') requests' =
        some (t', later') ∧ later'.map Prod.snd = later.map Prod.snd := by
  induction hsame generalizing s s' log log' with
  | nil =>
    obtain ⟨rfl, rfl⟩ := Prod.mk.inj (Option.some.inj hrun)
    exact ⟨s', log', rfl, hlog⟩
  | @cons r r' requests requests' hr hsame ih =>
    rw [run_cons, Option.bind_eq_some_iff] at hrun
    obtain ⟨v, hv, hrun⟩ := hrun
    obtain ⟨⟨result, u⟩, hserve, rfl⟩ := Option.map_eq_some_iff.1 hv
    subst hconfig hconfig'
    obtain ⟨u', hserve', hafter, hrenewed, hrenewed'⟩ := h.serve hs hr hserve
    have hlog₁ : (log' ++ [(r', result)]).map Prod.snd = (log ++ [(r, result)]).map Prod.snd := by
      rw [List.map_append, List.map_append, hlog]
      rfl
    obtain ⟨t', later', hrun', hlater⟩ :=
      ih hafter hrenewed.serving hrenewed.config_ hrenewed'.config_ hlog₁ hrun
    exact ⟨t', later', by rw [run_cons, logged, hserve', Option.map_some, Option.bind_some, hrun'],
      hlater⟩

/-- Whatever is asked, the answers show neither the API key nor the salt or the password hash of
any account, stored at the start or registered since: two servers that differ in these, with a
provider that takes either key and accounts that the passwords tried open alike, give the same
answers. -/
theorem secrets_unseen (hash : Bytes → ℕ) (pages : WebPages) {config config' : AiClientConfig}
    (hconfig : SameSettings config config') {tried : Bytes → Prop} {users users' : UserStore.Stored}
    {requests requests' : List Request} (husers : SameStore tried users.1 users'.1)
    (hrequests : List.Forall₂ (SameRequest tried config config') requests requests') :
    ∃ s log s' log',
      run (logged (serve hash pages)) (construct config users, []) requests = some (s, log) ∧
      run (logged (serve hash pages)) (construct config' users', []) requests' = some (s', log') ∧
      log'.map Prod.snd = log.map Prod.snd := by
  have hcomponents := components_construct hash config users
  obtain ⟨s, log, hrun, -, -⟩ := hcomponents.goes_on pages requests
  have hsame : SameServer tried (construct config users) (construct config' users') := by
    refine ⟨rfl, rfl, ⟨rfl, ?_, hconfig⟩, husers⟩
    rw [SameSettings] at hconfig
    rw [construct, construct, AiClient.create, AiClient.create, hconfig]
  obtain ⟨s', log', hrun', hlog⟩ := hsame.run hcomponents.renewed.serving rfl rfl rfl hrequests hrun
  exact ⟨s, log, s', log', hrun, hrun', hlog⟩

def keyed (key : Bytes) : AiClientConfig := ⟨lit "openai", lit "m", lit "http://h", key, true, 4, 1⟩

def salted (salt : Bytes) : UserStore.Stored :=
  ({ UserStore.create [] 86400 5 with
    users_ := AList.insert (lit "bob")
      ⟨lit "bob", lit "user", salt, demoHashPassword salt (lit "password")⟩ ∅ }, none)

/-- Alice's registration, with the random numbers that her salt is made of. -/
def draws (device : ℕ → UInt32) : Request :=
  { HttpSessions.registers with env := { quietEnv with device := device } }

/-- A chat, with a provider that refuses every other key. -/
def greets (key : Bytes) : Request :=
  ⟨lit "POST /chat HTTP/1.1\r\n\r\n\x7b\"message\":\"hi\"\x7d", { quietEnv with
    curl := fun q ↦
      if q.headers.getLast? = some (lit "Authorization: Bearer " ++ key) then
        .answered 200 (lit "\x7b\"content\":\"hello\"\x7d") 5
      else .answered 401 [] 5 }⟩

theorem salted_same (salt salt' : Bytes) :
    SameStore (· = lit "password") (salted salt).1 (salted salt').1 := by
  refine ⟨rfl, rfl, fun username ↦ ?_⟩
  by_cases hname : username = lit "bob"
  · subst hname
    rw [salted, salted, AList.lookup_insert, AList.lookup_insert]
    exact .some ⟨rfl, rfl, fun password hpassword ↦ hpassword ▸ iff_of_true rfl rfl⟩
  · rw [salted, salted, AList.lookup_insert_ne hname, AList.lookup_insert_ne hname,
      AList.lookup_empty]
    exact .none

theorem draws_same (config config' : AiClientConfig) (device device' : ℕ → UInt32) :
    SameRequest (· = lit "password") config config' (draws device) (draws device') := by
  refine ⟨rfl, rfl, ?_, fun _ ↦ rfl⟩
  have hcall : ∀ device, (draws device).userCall = _ := fun device ↦
    (HttpSessions.alice_calls_in { quietEnv with device := device }).1
  rw [hcall, hcall]
  exact .some (.registerUser
    ⟨rfl, rfl, fun password hpassword ↦ hpassword ▸ iff_of_true rfl rfl⟩)

theorem logsIn_same (config config' : AiClientConfig) : SameRequest (· = lit "password")
    config config' HttpSessions.logsIn HttpSessions.logsIn := by
  refine ⟨rfl, rfl, ?_, fun _ ↦ rfl⟩
  rw [HttpSessions.alice_calls.2]
  exact .some (.login rfl)

theorem greets_same (key key' : Bytes) :
    SameRequest (· = lit "password") (keyed key) (keyed key') (greets key) (greets key') := by
  have hnone : ∀ key, (greets key).userCall = none := by
    intro key
    have hpath : (parseHttpRequest (greets []).raw).map (fun q ↦ route q.path) = some .chat := by
      decide +kernel
    obtain ⟨q, hq, hroute⟩ := Option.map_eq_some_iff.1 hpath
    rw [Request.userCall, show parseHttpRequest (greets key).raw = some q from hq,
      Option.bind_some, Gateway.userCall, hroute]
  refine ⟨rfl, rfl, ?_, fun q ↦ ?_⟩
  · rw [hnone, hnone]
    exact .none
  · have hkey : ∀ key, (greets key).env.curl (curlRequest (keyed key) q) =
        .answered 200 (lit "\x7b\"content\":\"hello\"\x7d") 5 := fun key ↦ if_pos rfl
    rw [hkey, hkey]

theorem keyed_unseen : ∃ s log s' log',
    run (logged (serve List.length (.render [] [])))
      (construct (keyed (lit "k1")) (salted (lit "a")), [])
      [draws fun _ ↦ 0, HttpSessions.logsIn, greets (lit "k1")] = some (s, log) ∧
    run (logged (serve List.length (.render [] [])))
      (construct (keyed (lit "k2")) (salted (lit "b")), [])
      [draws fun _ ↦ 1, HttpSessions.logsIn, greets (lit "k2")] = some (s', log') ∧
    log'.map Prod.snd = log.map Prod.snd := by
  have hsettings : SameSettings (keyed (lit "k1")) (keyed (lit "k2")) := rfl
  exact secrets_unseen List.length (.render [] []) hsettings (salted_same (lit "a") (lit "b"))
    (.cons (draws_same ..) (.cons (logsIn_same ..) (.cons (greets_same ..) .nil)))

end CppAiService.Secrets
