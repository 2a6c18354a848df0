import CppAiService.AccountDurability
import CppAiService.HttpSessions

namespace CppAiService.HttpAccounts

open Bytes HttpCodec Gateway GatewayRuns UserStore UserFile AccountDurability HttpSessions
  Foundation.Run Foundation.Log

/-- A request, or the start of the next process on the file of the last one, with its settings. -/
inductive Event
  | request (r : Request)
  | restart (config : AiClientConfig) (inviteCode : Bytes)
      (sessionTtlSeconds registrationLimitPerMinute : ℕ)

def restarted (config : AiClientConfig) (inviteCode : Bytes) (ttl limit : ℕ)
    (file : Option Bytes) : GatewayState :=
  construct config (UserStore.start inviteCode ttl limit true file)

def step (hash : Bytes → ℕ) (pages : WebPages) (s : GatewayState) :
    Event → Option (Option RouteResult × GatewayState)
  | .request r => (serve hash pages s r).map fun (result, t) ↦ (some result, t)
  | .restart config inviteCode ttl limit =>
    some (none, restarted config inviteCode ttl limit s.userFile)

def Written : Event → Prop
  | .request r => r.env.append = .written
  | .restart .. => True

def account (e : Event × Option RouteResult) : Option StoredUser :=
  match e with
  | (.request r, some result) =>
    match r.userCall with
    | some (.registerUser username password _ _ _ device _) =>
      if result.status = lit "200 OK" then some (newUser username password device) else none
    | _ => none
  | _ => none

def accounts (log : List (Event × Option RouteResult)) : List StoredUser := log.filterMap account

def tokensSince (log : List (Event × Option RouteResult)) : List Bytes :=
  log.foldl (fun tokens e ↦
    match e with
    | (.request r, some result) =>
      tokens ++ ((r.userCall.map fun c ↦ (c, result)).bind tokenOf).toList
    | (.request _, none) => tokens
    | (.restart .., _) => []) []

/-- The file holds the accounts there have been, the table what a reload makes of them, and the
open sessions are of this process. -/
structure Kept (s : GatewayState) (log : List (Event × Option RouteResult)) : Prop where
  serving : s.aiClient_.responseCache_.Serving
  recorded : Recorded (accounts log) ⟨s.users_, s.userFile⟩
  sessions : ∀ w session, s.users_.sessions_.lookup w = some session → w ∈ tokensSince log

variable {hash : Bytes → ℕ} {pages : WebPages} {s t : GatewayState} {r : Request}
  {result : RouteResult} {log : List (Event × Option RouteResult)}

theorem tokensSince_request : tokensSince (log ++ [(.request r, some result)]) =
    tokensSince log ++ ((r.userCall.map fun c ↦ (c, result)).bind tokenOf).toList := by
  rw [tokensSince, List.foldl_append]
  rfl

theorem userCall_append {username password inviteCode clientId : Bytes} {now : ℤ}
    {device : ℕ → UInt32} {outcome : AppendOutcome}
    (h : r.userCall = some (.registerUser username password inviteCode clientId now device outcome)) :
    outcome = r.env.append := by
  obtain ⟨request, -, hcall⟩ := Option.bind_eq_some_iff.1 h
  rw [Gateway.userCall] at hcall
  split at hcall
  · split_ifs at hcall
    split at hcall
    · exact ((Call.registerUser.inj (Option.some.inj hcall)).2.2.2.2.2.2).symm
    · cases hcall
  · split_ifs at hcall
    split at hcall <;> cases hcall
  · split_ifs at hcall
    cases hcall
  · cases hcall

theorem status_register_iff (username password inviteCode clientId : Bytes) (now : ℤ)
    (device : ℕ → UInt32) (outcome : AppendOutcome) (auth : AuthResult) :
    (userAnswer (.registerUser username password inviteCode clientId now device outcome) auth).status =
      lit "200 OK" ↔ auth.ok = true := by
  have hne : lit "400 Bad Request" ≠ lit "200 OK" := by decide
  rw [userAnswer]
  cases auth.ok with
  | false => exact iff_of_false hne Bool.false_ne_true
  | true => exact iff_of_true rfl rfl

theorem login_ok_iff (u : UserStore) (username password : Bytes) (now : ℤ) (device : ℕ → UInt32) :
    (u.login username password now device).1.ok = true ↔ ∃ user, u.users_.lookup username = some user ∧
      demoHashPassword user.salt password = user.passwordHash := by
  rw [login]
  cases hfound : u.users_.lookup username with
  | none => simp [AuthResult.refused, AuthResult.initial]
  | some found =>
    dsimp only
    split_ifs with hhash
    · simp [AuthResult.refused, AuthResult.initial, hhash]
    · simpa using hhash

theorem recorded_same {ledger : List StoredUser} {w w' : World} (h : Recorded ledger w)
    (husers : w'.store.users_ = w.store.users_) (hfile : w'.file = w.file) : Recorded ledger w' :=
  ⟨hfile ▸ h.file, h.wellFormed, h.nodup, husers ▸ h.present, husers ▸ h.only⟩

theorem accounts_none {e : Event × Option RouteResult} (h : account e = none) :
    accounts (log ++ [e]) = accounts log := filterMap_append_of_none h

theorem accounts_some {e : Event × Option RouteResult} {user : StoredUser}
    (h : account e = some user) : accounts (log ++ [e]) = accounts log ++ [user] :=
  filterMap_append_of_some h

/-- A request that registers nobody. -/
theorem Kept.quiet (h : Kept s log) (hserving : t.aiClient_.responseCache_.Serving)
    (haccount : account (.request r, some result) = none)
    (husers : t.users_.users_ = s.users_.users_) (hfile : t.userFile = s.userFile)
    (hsessions : ∀ w session, t.users_.sessions_.lookup w = some session →
      s.users_.sessions_.lookup w = some session ∨
        (r.userCall.map fun c ↦ (c, result)).bind tokenOf = some w) :
    Kept t (log ++ [(.request r, some result)]) where
  serving := hserving
  recorded := by
    rw [accounts_none haccount]
    exact recorded_same h.recorded husers hfile
  sessions w session hlookup := by
    rw [tokensSince_request]
    obtain hold | htoken := hsessions w session hlookup
    · exact List.mem_append_left _ (h.sessions w session hold)
    · rw [htoken]
      exact List.mem_append_right _ (List.mem_singleton_self w)

theorem Kept.register (h : Kept s log) (hserving : t.aiClient_.responseCache_.Serving)
    {username password inviteCode clientId : Bytes} {now : ℤ} {device : ℕ → UInt32}
    {auth : AuthResult} (hcall : r.userCall =
      some (.registerUser username password inviteCode clientId now device .written))
    (hauth : UserStore.call (s.users_, s.userFile)
      (.registerUser username password inviteCode clientId now device .written) =
        some (auth, t.users_, t.userFile)) :
    Kept t (log ++ [(.request r, some (userAnswer
      (.registerUser username password inviteCode clientId now device .written) auth))]) := by
  have hregister := Option.some.inj hauth
  have hsessions : t.users_.sessions_ = s.users_.sessions_ := by
    obtain ⟨users, attempts, hframe⟩ := registerUser_frame s.users_ s.userFile username password
      inviteCode clientId now device .written
    rw [hregister] at hframe
    rw [show t.users_ = _ from hframe]
  have hworld : World.registerUser ⟨s.users_, s.userFile⟩ username password inviteCode clientId now
      device = (auth, ⟨t.users_, t.userFile⟩) := by
    rw [World.registerUser, hregister]
  have hkept : ∀ w session, t.users_.sessions_.lookup w = some session →
      w ∈ tokensSince (log ++ [(.request r, some (userAnswer
        (.registerUser username password inviteCode clientId now device .written) auth))]) := by
    intro w session hlookup
    rw [hsessions] at hlookup
    rw [tokensSince_request]
    exact List.mem_append_left _ (h.sessions w session hlookup)
  have haccount : account (.request r, some (userAnswer
      (.registerUser username password inviteCode clientId now device .written) auth)) =
        if auth.ok = true then some (newUser username password device) else none := by
    rw [account, hcall]
    exact if_congr (status_register_iff ..) rfl rfl
  obtain ⟨hok, husers, hrecorded⟩ | ⟨hok, -, -, hrecorded⟩ :=
    recorded_registerUser h.recorded _ _ _ _ _ _ hworld
  · rw [hok, if_neg Bool.false_ne_true] at haccount
    refine ⟨hserving, ?_, hkept⟩
    rwa [accounts_none haccount]
  · rw [hok, if_pos rfl] at haccount
    refine ⟨hserving, ?_, hkept⟩
    rwa [accounts_some haccount]

theorem account_registered {username password inviteCode clientId : Bytes} {now : ℤ}
    {device : ℕ → UInt32} {outcome : AppendOutcome} (hcall : r.userCall =
      some (.registerUser username password inviteCode clientId now device outcome))
    (hok : (s.users_.registerUser s.userFile username password inviteCode clientId now device
      outcome).1.ok = true)
    (hserve : serve hash pages s r = some (result, t)) :
    account (.request r, some result) = some (newUser username password device) := by
  have husers := (handled_raw hserve).users
  rw [hcall] at husers
  obtain ⟨auth, hauth, rfl⟩ := husers
  rw [congrArg Prod.fst (Option.some.inj hauth)] at hok
  rw [account, hcall]
  exact if_pos ((status_register_iff ..).2 hok)

theorem Kept.request (h : Kept s log) (hwritten : r.env.append = .written)
    (hserve : serve hash pages s r = some (result, t)) :
    Kept t (log ++ [(.request r, some result)]) := by
  have hr := handled_raw hserve
  have hserving := (hr.renewed h.serving).serving
  have husers := hr.users
  cases hcall : r.userCall with
  | none =>
    rw [hcall] at husers
    obtain ⟨husers, hfile⟩ := Prod.mk.inj husers
    refine h.quiet hserving ?_ (by rw [husers]) hfile fun w session hlookup ↦ .inl ?_
    · rw [account, hcall]
    · rwa [husers] at hlookup
  | some c =>
    rw [hcall] at husers
    obtain ⟨auth, hauth, rfl⟩ := husers
    cases c with
    | registerUser username password inviteCode clientId now device outcome =>
      obtain rfl : outcome = .written := (userCall_append hcall).trans hwritten
      exact h.register hserving hcall hauth
    | login username password now device =>
      rw [call_login, Option.some.injEq, Prod.mk.injEq, Prod.mk.injEq] at hauth
      obtain ⟨hresult, husers, hfile⟩ := hauth
      have haccount : account (.request r,
          some (userAnswer (.login username password now device) auth)) = none := by
        rw [account, hcall]
      obtain ⟨-, hsame⟩ | ⟨found, session, -, rfl, hlogin⟩ :=
        login_cases s.users_ username password now device
      · have hsame := husers.symm.trans hsame
        refine h.quiet hserving haccount (by rw [hsame]) hfile.symm fun w session hlookup ↦ .inl ?_
        rwa [hsame] at hlookup
      · rw [hlogin] at hresult husers
        refine h.quiet hserving haccount (by rw [← husers]) hfile.symm fun w session hlookup ↦ ?_
        rw [← husers] at hlookup
        dsimp only at hlookup
        by_cases hw : w = randomHex device 32
        · refine .inr ?_
          rw [hcall, Option.map_some, Option.bind_some, tokenOf_userAnswer, ← hresult, hw]
          rfl
        · rw [AList.lookup_insert_ne hw] at hlookup
          exact .inl hlookup
    | authenticateBearerToken header now =>
      rw [call_authenticate, Option.some.injEq, Prod.mk.injEq, Prod.mk.injEq] at hauth
      obtain ⟨hresult, husers, hfile⟩ := hauth
      have haccount : account (.request r,
          some (userAnswer (.authenticateBearerToken header now) auth)) = none := by
        rw [account, hcall]
      obtain hsame | ⟨found, -, -, herase⟩ := authenticateBearerToken_cases s.users_ header now
      · have hsame := husers.symm.trans hsame
        refine h.quiet hserving haccount (by rw [hsame]) hfile.symm fun w session hlookup ↦ .inl ?_
        rwa [hsame] at hlookup
      · have herase := husers.symm.trans herase
        refine h.quiet hserving haccount (by rw [herase]) hfile.symm fun w session hlookup ↦ .inl ?_
        rw [herase] at hlookup
        dsimp only at hlookup
        by_cases hw : w = trim (header.drop 7)
        · rw [hw, AList.lookup_erase] at hlookup
          cases hlookup
        · rwa [AList.lookup_erase_ne hw] at hlookup

theorem kept_restarted {ledger : List StoredUser} {file : Option Bytes} {u : UserStore}
    (h : Recorded ledger ⟨u, file⟩) (config : AiClientConfig) (inviteCode : Bytes) (ttl limit : ℕ) :
    (restarted config inviteCode ttl limit file).aiClient_.responseCache_.Serving ∧
    Recorded ledger ⟨(restarted config inviteCode ttl limit file).users_,
      (restarted config inviteCode ttl limit file).userFile⟩ ∧
    (restarted config inviteCode ttl limit file).users_.sessions_ = ∅ := by
  refine ⟨(components_construct (fun _ ↦ 0) config _).renewed.serving,
    recorded_restart h inviteCode ttl limit, ?_⟩
  cases file <;> rfl

theorem Kept.restart (h : Kept s log) (config : AiClientConfig) (inviteCode : Bytes)
    (ttl limit : ℕ) : Kept (restarted config inviteCode ttl limit s.userFile)
      (log ++ [(.restart config inviteCode ttl limit, none)]) := by
  obtain ⟨hserving, hrecorded, hsessions⟩ := kept_restarted h.recorded config inviteCode ttl limit
  refine ⟨hserving, ?_, fun w session hlookup ↦ ?_⟩
  · rwa [accounts_none rfl]
  · rw [hsessions] at hlookup
    cases hlookup

theorem Kept.step (h : Kept s log) {e : Event} (hwritten : Written e) :
    ∃ answer t, step hash pages s e = some (answer, t) ∧ Kept t (log ++ [(e, answer)]) := by
  cases e with
  | request r =>
    obtain ⟨result, t, hserve⟩ := serve_possible hash pages h.serving r
    exact ⟨some result, t, by rw [HttpAccounts.step, hserve, Option.map_some],
      h.request hwritten hserve⟩
  | restart config inviteCode ttl limit =>
    exact ⟨none, _, rfl, h.restart config inviteCode ttl limit⟩

def Opens (user : StoredUser) (password : Bytes) : Prop :=
  demoHashPassword user.salt password = user.passwordHash

theorem Kept.lookup_iff (h : Kept s log) {username : Bytes} (hsalt : username ≠ lit "salt")
    (hhash : username ≠ lit "password_hash") (user : StoredUser) :
    s.users_.users_.lookup username = some user ↔ user ∈ accounts log ∧ user.username = username := by
  have hsame : ∀ user ∈ accounts log, user.username = username →
      s.users_.users_.lookup username = some user := by
    rintro user hmem rfl
    have hreloaded := (reloaded_eq_self_iff (h.recorded.wellFormed user hmem)).2 ⟨hsalt, hhash⟩
    obtain hlookup | hlookup := h.recorded.present user hmem
    · exact hlookup
    · exact hreloaded ▸ hlookup
  constructor
  · intro hlookup
    have hname : username ∈ (accounts log).map (·.username) := by
      by_contra hnew
      cases (h.recorded.only username hnew).symm.trans hlookup
    obtain ⟨other, hmem, hother⟩ := List.mem_map.1 hname
    obtain rfl := Option.some.inj ((hsame other hmem hother).symm.trans hlookup)
    exact ⟨hmem, hother⟩
  · rintro ⟨hmem, hname⟩
    exact hsame user hmem hname

theorem authenticate_found {u : UserStore} {header : Bytes} {now : ℤ}
    (h : (u.authenticateBearerToken header now).1.ok = true) :
    ∃ session, u.sessions_.lookup (trim (header.drop 7)) = some session := by
  have hlength : (lit "Bearer ").length = 7 := by decide
  rw [authenticateBearerToken] at h
  dsimp only at h
  rw [hlength] at h
  split_ifs at h
  · cases h
  · cases h
  · cases hfound : u.sessions_.lookup (trim (header.drop 7)) with
    | none =>
      rw [hfound] at h
      cases h
    | some session => exact ⟨session, rfl⟩

theorem Kept.login_iff (h : Kept s log) {username password : Bytes} {now : ℤ}
    {device : ℕ → UInt32} (hcall : r.userCall = some (.login username password now device))
    (hsalt : username ≠ lit "salt") (hhash : username ≠ lit "password_hash")
    (hserve : serve hash pages s r = some (result, t)) :
    result.status = lit "200 OK" ↔
      ∃ user ∈ accounts log, user.username = username ∧ Opens user password := by
  have husers := (handled_raw hserve).users
  rw [hcall] at husers
  obtain ⟨auth, hauth, rfl⟩ := husers
  rw [call_login, Option.some.injEq, Prod.mk.injEq] at hauth
  rw [status_login_iff, ← hauth.1, login_ok_iff]
  dsimp only
  simp only [h.lookup_iff hsalt hhash, and_assoc, Opens]

theorem Kept.authenticated (h : Kept s log) {header : Bytes} {now : ℤ}
    (hcall : r.userCall = some (.authenticateBearerToken header now))
    (hserve : serve hash pages s r = some (result, t)) (hok : result.status = lit "200 OK") :
    trim (header.drop 7) ∈ tokensSince log := by
  have husers := (handled_raw hserve).users
  rw [hcall] at husers
  obtain ⟨auth, hauth, rfl⟩ := husers
  rw [call_authenticate, Option.some.injEq, Prod.mk.injEq] at hauth
  rw [status_authenticate_iff, ← hauth.1] at hok
  obtain ⟨session, hfound⟩ := authenticate_found hok
  exact h.sessions _ session hfound

/-- Over any requests and restarts, as long as records are written whole: who was told that he is
registered, and nobody else, can log in from then on, in every later process, with a password
that hashes as his own; no name is registered twice; and a token that is accepted was handed out
by the process that accepts it. -/
theorem accounts_outlive_restarts (hash : Bytes → ℕ) (pages : WebPages) (config : AiClientConfig)
    (inviteCode : Bytes) (ttl limit : ℕ) {events : List Event} (hwritten : ∀ e ∈ events, Written e) :
    ∃ s log, run (logged (step hash pages)) (restarted config inviteCode ttl limit none, []) events =
        some (s, log) ∧ log.map Prod.fst = events ∧
      ((accounts log).map (·.username)).Nodup ∧
      ∀ r result t, serve hash pages s r = some (result, t) →
        (∀ username password now device, r.userCall = some (.login username password now device) →
          username ≠ lit "salt" → username ≠ lit "password_hash" →
          (result.status = lit "200 OK" ↔
            ∃ user ∈ accounts log, user.username = username ∧ Opens user password)) ∧
        ∀ header now, r.userCall = some (.authenticateBearerToken header now) →
          result.status = lit "200 OK" → trim (header.drop 7) ∈ tokensSince log := by
  have hstart : Kept (restarted config inviteCode ttl limit none) [] := by
    obtain ⟨hserving, hrecorded, hsessions⟩ := kept_restarted
      (recorded_start inviteCode ttl limit) config inviteCode ttl limit
    refine ⟨hserving, hrecorded, fun w session hlookup ↦ ?_⟩
    rw [hsessions] at hlookup
    cases hlookup
  have hstep : ∀ (u : GatewayState × List (Event × Option RouteResult)) (e : Event),
      Written e ∧ True → Kept u.1 u.2 →
        ∃ v, logged (step hash pages) u e = some v ∧ Kept v.1 v.2 := by
    rintro u e ⟨he, -⟩ hu
    obtain ⟨answer, t, ht, hkept⟩ : ∃ answer t, step hash pages u.1 e = some (answer, t) ∧
        Kept t (u.2 ++ [(e, answer)]) := hu.step he
    exact ⟨_, by rw [logged, ht, Option.map_some], hkept⟩
  obtain ⟨⟨s, log⟩, hrun, h⟩ := possible hstep
    (s := (restarted config inviteCode ttl limit none, [])) hstart
    ((along_of_forall (fun _ _ ↦ trivial) _ events).and_mem hwritten)
  refine ⟨s, log, hrun, logged_actions hrun, h.recorded.nodup, fun r result t hserve ↦ ⟨?_, ?_⟩⟩
  · intro username password now device hcall hsalt hhash
    exact h.login_iff hcall hsalt hhash hserve
  · intro header now hcall hok
    exact h.authenticated hcall hserve hok

def stub : AiClientConfig := ⟨lit "stub", [], [], [], false, 64, 20⟩

/-- Alice registers with one process and logs in with the next. -/
theorem alice_outlives_restart : ∃ s log result t,
    run (logged (step (fun _ ↦ 0) (.render [] []))) (restarted stub [] 86400 5 none, [])
      [.request registers, .restart stub [] 86400 5] = some (s, log) ∧
    serve (fun _ ↦ 0) (.render [] []) s logsIn = some (result, t) ∧
    result.status = lit "200 OK" := by
  have hwritten : ∀ e ∈ [Event.request registers, .restart stub [] 86400 5], Written e := by
    intro e he
    obtain rfl | he := List.mem_cons.1 he
    · rfl
    · obtain rfl := List.mem_singleton.1 he
      trivial
  obtain ⟨s, log, hrun, hlog, -, hserved⟩ := accounts_outlive_restarts (fun _ ↦ 0)
    (.render [] []) stub [] 86400 5 hwritten
  obtain ⟨hregister, hlogin⟩ := alice_calls
  have hserving (file : Option Bytes) :
      (restarted stub [] 86400 5 file).aiClient_.responseCache_.Serving :=
    (components_construct (fun _ ↦ 0) stub _).renewed.serving
  obtain ⟨first, t₁, hfirst⟩ := serve_possible (fun _ ↦ 0) (.render [] []) (hserving none) registers
  have haccount := account_registered hregister (by decide +kernel) hfirst
  have hruns : run (logged (step (fun _ ↦ 0) (.render [] []))) (restarted stub [] 86400 5 none, [])
      [.request registers, .restart stub [] 86400 5] =
        some (restarted stub [] 86400 5 t₁.userFile,
          [(.request registers, some first), (.restart stub [] 86400 5, none)]) := by
    rw [run_cons, logged, step, hfirst]
    rfl
  obtain ⟨rfl, rfl⟩ := Prod.mk.inj (Option.some.inj (hrun.symm.trans hruns))
  obtain ⟨result, t, hserve⟩ :=
    serve_possible (fun _ ↦ 0) (.render [] []) (hserving t₁.userFile) logsIn
  refine ⟨_, _, result, t, hruns, hserve, ?_⟩
  exact ((hserved logsIn result t hserve).1 _ _ _ _ hlogin (by decide) (by decide)).2
    ⟨_, List.mem_filterMap.2 ⟨_, List.mem_cons_self, haccount⟩, rfl, newUser_opens _ _ _⟩

end CppAiService.HttpAccounts
