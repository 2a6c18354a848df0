import CppAiService.AccountDurability
import CppAiService.Foundation.Log

namespace CppAiService.UsernameUniqueness

open Bytes UserStore UserFile AccountDurability Foundation.Run Foundation.Log

/-- What an action answers: a registration its result, a restart the flag of `load`. -/
inductive Answer
  | registered (result : AuthResult)
  | loaded (ok : Bool)

def answer (w : World) : Action → Option (Answer × World)
  | .registerUser username password inviteCode clientId now device =>
    let (result, w) := w.registerUser username password inviteCode clientId now device
    some (.registered result, w)
  | .restart inviteCode ttl limit =>
    some (.loaded ((create inviteCode ttl limit).load true w.file).1,
      w.restart inviteCode ttl limit)

def registeredName : Action × Answer → Option Bytes
  | (.registerUser username .., .registered result) => if result.ok then some username else none
  | _ => none

def names (log : List (Action × Answer)) : List Bytes := log.filterMap registeredName

theorem answer_eq (w : World) (action : Action) : ∃ a, answer w action = some (a, w.step action) := by
  cases action <;> exact ⟨_, rfl⟩

theorem load_recorded {ledger : List StoredUser} {w : World} (h : Recorded ledger w)
    (inviteCode : Bytes) (ttl limit : ℕ) :
    ((create inviteCode ttl limit).load true w.file).1 = true := by
  have hfile := h.file
  cases hf : w.file with
  | none => rfl
  | some contents =>
    rw [hf, Option.getD_some] at hfile
    simp only [load, Bool.not_true, Bool.false_eq_true, ↓reduceIte, hfile, getlines_records,
      loadLines_records h.wellFormed]

theorem restart_keys {ledger : List StoredUser} {w : World} (h : Recorded ledger w)
    (inviteCode : Bytes) (ttl limit : ℕ) (name : Bytes) :
    name ∈ (w.restart inviteCode ttl limit).store.users_.keys ↔
      name ∈ ledger.map (·.username) := by
  obtain ⟨hin, hout⟩ := restart_lookup h inviteCode ttl limit
  rw [← AList.mem_keys, ← AList.lookup_isSome]
  constructor
  · intro hsome
    by_contra hname
    rw [hout name hname] at hsome
    cases hsome
  · intro hname
    obtain ⟨user, huser, rfl⟩ := List.mem_map.1 hname
    rw [hin user huser]
    rfl

/-- The ledger lists the registered usernames, and no load has failed. -/
def Kept (w : World) (log : List (Action × Answer)) : Prop :=
  (∃ ledger, Recorded ledger w ∧ ledger.map (·.username) = names log) ∧
    ∀ e ∈ log, ∀ ok, e.2 = .loaded ok → ok = true

theorem Kept.step {w w' : World} {log : List (Action × Answer)} {action : Action} {a : Answer}
    (h : Kept w log) (hanswer : answer w action = some (a, w')) : Kept w' (log ++ [(action, a)]) := by
  obtain ⟨⟨ledger, hledger, hnames⟩, hloads⟩ := h
  have hloads (ha : ∀ ok, a = .loaded ok → ok = true) :
      ∀ e ∈ log ++ [(action, a)], ∀ ok, e.2 = .loaded ok → ok = true := by
    intro e he
    obtain he | he := List.mem_append.1 he
    · exact hloads e he
    · obtain rfl := List.mem_singleton.1 he
      exact ha
  cases action with
  | registerUser username password inviteCode clientId now device =>
    cases hreg : w.registerUser username password inviteCode clientId now device with
    | mk result next =>
    rw [answer, hreg, Option.some.injEq, Prod.mk.injEq] at hanswer
    obtain ⟨rfl, rfl⟩ := hanswer
    refine ⟨?_, hloads fun ok hok ↦ by cases hok⟩
    obtain ⟨hno, -, hnext⟩ | ⟨hyes, -, -, hnext⟩ := recorded_registerUser hledger _ _ _ _ _ _ hreg
    · refine ⟨ledger, hnext, hnames.trans ?_⟩
      exact (filterMap_append_of_none (by simp [registeredName, hno])).symm
    · refine ⟨_, hnext, ?_⟩
      rw [List.map_append, hnames]
      exact (filterMap_append_of_some (by simp [registeredName, hyes, newUser])).symm
  | restart inviteCode ttl limit =>
    obtain ⟨rfl, rfl⟩ := Prod.mk.inj (Option.some.inj hanswer)
    refine ⟨⟨ledger, recorded_restart hledger inviteCode ttl limit, ?_⟩, hloads ?_⟩
    · exact hnames.trans (filterMap_append_of_none rfl).symm
    · intro ok hok
      cases hok
      exact load_recorded hledger inviteCode ttl limit

/-- Every load succeeds and finds the usernames registered so far, no two of them the same. -/
theorem usernames_unique (inviteCode : Bytes) (ttl limit : ℕ) (actions : List Action) :
    ∃ w log, run (logged answer) (World.start inviteCode ttl limit, []) actions = some (w, log) ∧
      (∀ e ∈ log, ∀ ok, e.2 = .loaded ok → ok = true) ∧ (names log).Nodup ∧
      ∀ inviteCode ttl limit, ((create inviteCode ttl limit).load true w.file).1 = true ∧
        ∀ name, name ∈ ((create inviteCode ttl limit).load true w.file).2.2.users_.keys ↔
          name ∈ names log := by
  obtain ⟨w, log, hrun⟩ := logged_possible (fun w action ↦ ⟨_, _, (answer_eq w action).choose_spec⟩)
    (World.start inviteCode ttl limit, []) actions
  have hstart : Kept (World.start inviteCode ttl limit) [] :=
    ⟨⟨[], recorded_start inviteCode ttl limit, rfl⟩, fun _ h ↦ absurd h List.not_mem_nil⟩
  obtain ⟨⟨ledger, hledger, hnames⟩, hloads⟩ :=
    logged_inv (fun _ _ _ _ _ h hanswer ↦ h.step hanswer) hstart hrun
  refine ⟨w, log, hrun, hloads, hnames ▸ hledger.nodup, fun inviteCode ttl limit ↦ ⟨?_, ?_⟩⟩
  · exact load_recorded hledger inviteCode ttl limit
  · rw [← hnames]
    exact restart_keys hledger inviteCode ttl limit

end CppAiService.UsernameUniqueness
