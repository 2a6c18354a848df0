import CppAiService.UserFile

namespace CppAiService.AccountDurability

open Bytes HttpCodec UserStore UserFile

structure World where
  store : UserStore
  file : Option Bytes

inductive Action
  | registerUser (username password inviteCode clientId : Bytes) (now : ℤ) (device : ℕ → UInt32)
  | restart (inviteCode : Bytes) (sessionTtlSeconds registrationLimitPerMinute : ℕ)

def World.registerUser (w : World) (username password inviteCode clientId : Bytes) (now : ℤ)
    (device : ℕ → UInt32) : AuthResult × World :=
  let (result, store, file) :=
    w.store.registerUser w.file username password inviteCode clientId now device .written
  (result, ⟨store, file⟩)

def World.restart (w : World) (inviteCode : Bytes)
    (sessionTtlSeconds registrationLimitPerMinute : ℕ) : World :=
  let store := UserStore.create inviteCode sessionTtlSeconds registrationLimitPerMinute
  ⟨(store.load true w.file).2.2, w.file⟩

def World.step (w : World) : Action → World
  | .registerUser username password inviteCode clientId now device =>
    (w.registerUser username password inviteCode clientId now device).2
  | .restart inviteCode ttl limit => w.restart inviteCode ttl limit

def World.run (w : World) (actions : List Action) : World := actions.foldl World.step w

def World.start (inviteCode : Bytes) (sessionTtlSeconds registrationLimitPerMinute : ℕ) : World :=
  World.restart ⟨UserStore.create inviteCode sessionTtlSeconds registrationLimitPerMinute, none⟩
    inviteCode sessionTtlSeconds registrationLimitPerMinute

/-- The ledger lists the accounts ever registered, in the order of their lines. An
account is in the table as it was registered, or as a reload has read it. -/
structure Recorded (ledger : List StoredUser) (w : World) : Prop where
  file : w.file.getD [] = ledger.flatMap recordLine
  wellFormed : ∀ user ∈ ledger, WellFormed user
  nodup : (ledger.map (·.username)).Nodup
  present : ∀ user ∈ ledger, w.store.users_.lookup user.username = some user ∨
    w.store.users_.lookup user.username = some (reloaded user)
  only : ∀ name ∉ ledger.map (·.username), w.store.users_.lookup name = none

theorem restart_lookup {ledger : List StoredUser} {w : World} (h : Recorded ledger w)
    (inviteCode : Bytes) (ttl limit : ℕ) :
    (∀ user ∈ ledger, (w.restart inviteCode ttl limit).store.users_.lookup user.username =
      some (reloaded user)) ∧
    ∀ name ∉ ledger.map (·.username),
      (w.restart inviteCode ttl limit).store.users_.lookup name = none := by
  obtain ⟨hin, hout⟩ := lookup_foldl_insert h.nodup ∅
  have hfile := h.file
  cases hf : w.file with
  | none =>
    rw [hf, Option.getD_none] at hfile
    have hnil : ledger = [] := by
      cases ledger with
      | nil => rfl
      | cons user ledger => simp [recordLine_eq] at hfile
    subst hnil
    simp [World.restart, hf, load, create]
  | some contents =>
    rw [hf, Option.getD_some] at hfile
    have hload : (w.restart inviteCode ttl limit).store.users_ =
        ledger.foldl (fun users user ↦ users.insert user.username (reloaded user)) ∅ := by
      simp only [World.restart, hf, load, Bool.not_true, Bool.false_eq_true, ↓reduceIte, hfile,
        getlines_records, loadLines_records h.wellFormed, create]
    rw [hload]
    exact ⟨hin, fun name hname ↦ (hout name hname).trans (AList.lookup_empty name)⟩

theorem recorded_restart {ledger : List StoredUser} {w : World} (h : Recorded ledger w)
    (inviteCode : Bytes) (ttl limit : ℕ) : Recorded ledger (w.restart inviteCode ttl limit) where
  file := h.file
  wellFormed := h.wellFormed
  nodup := h.nodup
  present user hu := .inr ((restart_lookup h inviteCode ttl limit).1 user hu)
  only := (restart_lookup h inviteCode ttl limit).2

theorem Recorded.append {ledger : List StoredUser} {w w' : World} (h : Recorded ledger w)
    {user : StoredUser} (hvalid : WellFormed user)
    (hnew : user.username ∉ ledger.map (·.username))
    (husers : w'.store.users_ = w.store.users_.insert user.username user)
    (hfile : w'.file = some (w.file.getD [] ++ recordLine user)) :
    Recorded (ledger ++ [user]) w' where
  file := by
    simp only [hfile, Option.getD_some, h.file, List.flatMap_append, List.flatMap_cons,
      List.flatMap_nil, List.append_nil]
  wellFormed := by
    intro other hother
    rcases List.mem_append.mp hother with hother | hother
    · exact h.wellFormed other hother
    · exact List.mem_singleton.mp hother ▸ hvalid
  nodup := by
    rw [List.map_append, List.nodup_append]
    refine ⟨h.nodup, by simp, ?_⟩
    intro name hname _ hother hname'
    obtain rfl := hname'
    rw [List.map_singleton, List.mem_singleton] at hother
    subst hother
    exact hnew hname
  present := by
    intro other hother
    rw [husers]
    rcases List.mem_append.mp hother with hother | hother
    · have hne : other.username ≠ user.username :=
        fun he ↦ hnew (he ▸ List.mem_map_of_mem hother)
      rw [AList.lookup_insert_ne hne]
      exact h.present other hother
    · obtain rfl := List.mem_singleton.mp hother
      exact .inl (AList.lookup_insert _)
  only := by
    intro name hname
    rw [List.map_append, List.mem_append, not_or, List.map_singleton, List.mem_singleton] at hname
    have hne : name ≠ user.username := hname.2
    rw [husers, AList.lookup_insert_ne hne]
    exact h.only name hname.1

theorem recorded_registerUser {ledger : List StoredUser} {w : World} (h : Recorded ledger w)
    (username password inviteCode clientId : Bytes) (now : ℤ) (device : ℕ → UInt32)
    {result : AuthResult} {w' : World}
    (hw : w.registerUser username password inviteCode clientId now device = (result, w')) :
    (result.ok = false ∧ w'.store.users_ = w.store.users_ ∧ Recorded ledger w') ∨
    (result.ok = true ∧ username ∉ ledger.map (·.username) ∧
      w'.store.users_ = w.store.users_.insert username (newUser username password device) ∧
      Recorded (ledger ++ [newUser username password device]) w') := by
  obtain ⟨store', file'⟩ := w'
  have hr : w.store.registerUser w.file username password inviteCode clientId now device
      .written = (result, store', file') := by
    simp only [World.registerUser, Prod.mk.injEq, World.mk.injEq] at hw
    exact Prod.ext hw.1 (Prod.ext hw.2.1 hw.2.2)
  rcases registerUser_cases _ _ _ _ _ _ _ _ _ _ _ _ hr with
    ⟨hok, husers, hfile⟩ | ⟨hok, -, hvalid, -, hfree, husers, hfile⟩
  · have hfile : file' = w.file := by
      rcases hfile with hfile | ⟨written, hwritten, -⟩
      · exact hfile
      · cases hwritten
    refine .inl ⟨hok, husers, ?_⟩
    exact ⟨hfile ▸ h.file, h.wellFormed, h.nodup, husers ▸ h.present, husers ▸ h.only⟩
  · have hnew : username ∉ ledger.map (·.username) := by
      intro hmem
      obtain ⟨user, hu, rfl⟩ := List.mem_map.mp hmem
      rcases h.present user hu with hp | hp <;> rw [hp] at hfree <;> cases hfree
    have huser := newUser_wellFormed hvalid password device
    exact .inr ⟨hok, hnew, husers, h.append huser hnew husers hfile⟩

theorem recorded_start (inviteCode : Bytes) (ttl limit : ℕ) :
    Recorded [] (World.start inviteCode ttl limit) :=
  recorded_restart ⟨rfl, by simp, by simp, by simp, fun _ _ ↦ rfl⟩ inviteCode ttl limit

theorem recorded_step {ledger : List StoredUser} {w : World} (h : Recorded ledger w)
    (action : Action) : ∃ more, Recorded (ledger ++ more) (w.step action) := by
  cases action with
  | registerUser username password inviteCode clientId now device =>
    cases hreg : w.registerUser username password inviteCode clientId now device with
    | mk result w' =>
      rw [World.step, hreg]
      rcases recorded_registerUser h _ _ _ _ _ _ hreg with ⟨-, -, hw⟩ | ⟨-, -, -, hw⟩
      · exact ⟨[], by rwa [List.append_nil]⟩
      · exact ⟨_, hw⟩
  | restart inviteCode ttl limit =>
    exact ⟨[], by rw [List.append_nil]; exact recorded_restart h inviteCode ttl limit⟩

theorem recorded_run {ledger : List StoredUser} {w : World} (h : Recorded ledger w)
    (actions : List Action) : ∃ more, Recorded (ledger ++ more) (w.run actions) := by
  induction actions generalizing ledger w with
  | nil => exact ⟨[], by rwa [List.append_nil]⟩
  | cons action actions ih =>
    obtain ⟨more, hmore⟩ := recorded_step h action
    obtain ⟨rest, hrest⟩ := ih hmore
    exact ⟨more ++ rest, by rwa [← List.append_assoc]⟩

/-- An account is present with exactly its registered fields after every later run,
and its password opens it, unless its name is that of one of the two fields behind
the role. -/
theorem account_durable_iff (inviteCode : Bytes) (ttl limit : ℕ) (before : List Action)
    (username password invite clientId : Bytes) (now : ℤ) (device : ℕ → UInt32)
    (hok : (((World.start inviteCode ttl limit).run before).registerUser
      username password invite clientId now device).1.ok = true) :
    (∀ after : List Action,
      let w := (((World.start inviteCode ttl limit).run before).registerUser
        username password invite clientId now device).2.run after
      w.store.users_.lookup username = some (newUser username password device) ∧
      ∀ (later : ℤ) (device' : ℕ → UInt32),
        (w.store.login username password later device').1.ok = true) ↔
    username ≠ lit "salt" ∧ username ≠ lit "password_hash" := by
  obtain ⟨ledger, hledger⟩ := recorded_run (recorded_start inviteCode ttl limit) before
  generalize (World.start inviteCode ttl limit).run before = w at hok hledger ⊢
  cases hreg : w.registerUser username password invite clientId now device with
  | mk result w₁ =>
  rw [hreg] at hok
  rcases recorded_registerUser hledger _ _ _ _ _ _ hreg with ⟨hno, -⟩ | ⟨-, -, -, hw⟩
  · rw [hno] at hok
    cases hok
  have hmem : newUser username password device ∈
      ([] ++ ledger) ++ [newUser username password device] := by simp
  have hwf := hw.wellFormed _ hmem
  constructor
  · intro h
    have hlost := (restart_lookup hw inviteCode ttl limit).1 _ hmem
    have hkept := (h [.restart inviteCode ttl limit]).1
    exact (reloaded_eq_self_iff hwf).mp (Option.some.inj (hlost.symm.trans hkept))
  · intro hname after
    obtain ⟨more, hafter⟩ := recorded_run hw after
    have hself := (reloaded_eq_self_iff hwf).mpr hname
    have hlookup : (w₁.run after).store.users_.lookup username =
        some (newUser username password device) := by
      rcases hafter.present _ (List.mem_append_left more hmem) with hp | hp
      · exact hp
      · rwa [hself] at hp
    exact ⟨hlookup, fun later device' ↦ login_ok_of_lookup hlookup rfl later device'⟩

theorem alice_account_kept :
    ((((World.start [] 86400 5).run []).registerUser (lit "alice") (lit "password") []
      (lit "127.0.0.1") 0 fun _ ↦ 0).2.run [.restart [] 86400 5]).store.users_.lookup (lit "alice") =
        some (newUser (lit "alice") (lit "password") fun _ ↦ 0) :=
  ((account_durable_iff [] 86400 5 [] (lit "alice") (lit "password") [] (lit "127.0.0.1") 0
    (fun _ ↦ 0) (by decide)).mpr (by decide) [.restart [] 86400 5]).1

/-- The username is long enough, made of letters, and still lost at the first restart. -/
theorem salt_account_lost :
    let w := World.start [] 86400 5
    let registered := w.registerUser (lit "salt") (lit "password") [] (lit "127.0.0.1") 0 fun _ ↦ 0
    registered.1.ok = true ∧
      (registered.2.run [.restart [] 86400 5]).store.users_.lookup (lit "salt") ≠
        some (newUser (lit "salt") (lit "password") fun _ ↦ 0) := by
  intro w registered
  have hok : registered.1.ok = true := by decide
  refine ⟨hok, fun hkept ↦ ?_⟩
  rcases recorded_registerUser (recorded_start [] 86400 5) _ _ _ _ _ _
    (Prod.mk.eta (p := registered)).symm with ⟨hno, -⟩ | ⟨-, -, -, hw⟩
  · rw [hno] at hok
    cases hok
  · have hmem := List.mem_append_right []
      (List.mem_singleton_self (newUser (lit "salt") (lit "password") fun _ ↦ 0))
    have hlost := (restart_lookup hw [] 86400 5).1 _ hmem
    have hself := Option.some.inj (hlost.symm.trans hkept)
    exact ((reloaded_eq_self_iff (hw.wellFormed _ hmem)).mp hself).1 rfl

end CppAiService.AccountDurability
