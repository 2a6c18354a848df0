import CppAiService.Foundation.SlidingWindow
import CppAiService.UserCalls
import Mathlib.Algebra.Order.Group.Int

namespace CppAiService.RegistrationLimit

open Bytes HttpCodec UserStore Foundation.Run Foundation.Log Foundation.SlidingWindow

/-- A call that reaches the limiter: a registration whose username and password are well formed. -/
def attempt : Call → Option (Bytes × ℤ)
  | .registerUser username password _ clientId now _ _ =>
    if validateUsername username = none ∧ validatePassword password = none then
      some (clientId, now)
    else none
  | _ => none

def admitted (e : Call × AuthResult) : Option (Bytes × ℤ) :=
  (attempt e.1).filter fun _ ↦ e.2.error ≠ lit "too many registration attempts"

def times (clientId : Bytes) (log : History) : List ℤ :=
  ((log.filterMap admitted).filter (·.1 = clientId)).map (·.2)

def kept (s : UserStore) (clientId : Bytes) : List ℤ :=
  (s.registrationAttempts_.lookup clientId).getD []

theorem isRegistrationLimitedLocked_eq (s : UserStore) (clientId : Bytes) (now : ℤ) :
    s.isRegistrationLimitedLocked clientId now =
      (decide (s.registrationLimitPerMinute_ ≤ (recent (seconds 60) now (kept s clientId)).length),
        { s with
          registrationAttempts_ := s.registrationAttempts_.insert clientId
            (record s.registrationLimitPerMinute_ (seconds 60) now (kept s clientId)) }) := by
  unfold isRegistrationLimitedLocked record
  change (if s.registrationLimitPerMinute_ ≤ (recent (seconds 60) now (kept s clientId)).length then
    (true, { s with
      registrationAttempts_ := s.registrationAttempts_.insert clientId
        (recent (seconds 60) now (kept s clientId)) }) else _) = _
  by_cases hlimit : s.registrationLimitPerMinute_ ≤
      (recent (seconds 60) now (kept s clientId)).length
  · rw [if_pos hlimit, if_neg (Nat.not_lt.2 hlimit), decide_eq_true hlimit]
  · rw [if_neg hlimit, if_pos (Nat.not_le.1 hlimit), decide_eq_false hlimit]
    rfl

theorem appendUserLocked_error {user : StoredUser} {file file' : Option Bytes}
    {outcome : AppendOutcome} {error : Bytes}
    (h : appendUserLocked user file outcome = (some error, file')) :
    error ≠ lit "too many registration attempts" := by
  cases outcome <;> cases h <;> decide

/-- What the limiter decides on an attempt, and what is on record afterwards. -/
theorem registerUser_limiter (s : UserStore) (file : Option Bytes)
    {username password : Bytes} (inviteCode clientId : Bytes) (now : ℤ) (device : ℕ → UInt32)
    (outcome : AppendOutcome) (hu : validateUsername username = none)
    (hp : validatePassword password = none) :
    ((s.registerUser file username password inviteCode clientId now device outcome).1.error ≠
      lit "too many registration attempts" ↔
      (recent (seconds 60) now (kept s clientId)).length < s.registrationLimitPerMinute_) ∧
    (s.registerUser file username password inviteCode clientId now device
      outcome).2.1.registrationAttempts_ = s.registrationAttempts_.insert clientId
        (record s.registrationLimitPerMinute_ (seconds 60) now (kept s clientId)) := by
  have hlimited : (s.isRegistrationLimitedLocked clientId now).1 = true ↔
      ¬ (recent (seconds 60) now (kept s clientId)).length < s.registrationLimitPerMinute_ := by
    rw [isRegistrationLimitedLocked_eq, decide_eq_true_eq, Nat.not_lt]
  have hrecord : (s.isRegistrationLimitedLocked clientId now).2.registrationAttempts_ =
      s.registrationAttempts_.insert clientId
        (record s.registrationLimitPerMinute_ (seconds 60) now (kept s clientId)) := by
    rw [isRegistrationLimitedLocked_eq]
  have hinviteError : lit "invalid invite code" ≠ lit "too many registration attempts" := by decide
  have hexistsError : lit "username already exists" ≠ lit "too many registration attempts" := by
    decide
  have hno : [] ≠ lit "too many registration attempts" := by decide
  rw [← not_iff_not, ← hlimited, ← hrecord]
  unfold registerUser
  rw [hu, hp]
  generalize s.isRegistrationLimitedLocked clientId now = r
  obtain ⟨limited, t⟩ := r
  dsimp only [Option.orElse_none]
  split_ifs with hlim hinvite hdup
  · exact ⟨iff_of_true (not_not_intro rfl) hlim, rfl⟩
  · exact ⟨iff_of_false (not_not_intro hinviteError) hlim, rfl⟩
  · exact ⟨iff_of_false (not_not_intro hexistsError) hlim, rfl⟩
  · cases happend : appendUserLocked (newUser username password device) file outcome with
    | mk error file =>
    cases error with
    | none => exact ⟨iff_of_false (not_not_intro hno) hlim, rfl⟩
    | some error =>
      exact ⟨iff_of_false (not_not_intro (appendUserLocked_error happend)) hlim, rfl⟩

def steady : Call → Option ℤ
  | .registerUser _ _ _ _ now _ _ => some now
  | _ => none

def ofClient (clientId : Bytes) : Call → Bool
  | .registerUser _ _ _ client _ _ _ => client == clientId
  | _ => false

section Effect

variable {s t : Stored} {c : Call} {result : AuthResult} {clientId : Bytes} {now : ℤ}

theorem of_attempt (h : attempt c = some (clientId, now)) :
    steady c = some now ∧ ofClient clientId c = true := by
  cases c with
  | registerUser username password inviteCode client time device outcome =>
    rw [attempt, Option.ite_none_right_eq_some, Option.some.injEq, Prod.mk.injEq] at h
    obtain ⟨-, rfl, rfl⟩ := h
    exact ⟨rfl, beq_self_eq_true client⟩
  | login => cases h
  | authenticateBearerToken => cases h

theorem call_limit (h : call s c = some (result, t)) :
    t.1.registrationLimitPerMinute_ = s.1.registrationLimitPerMinute_ := by
  cases c with
  | registerUser username password inviteCode client time device outcome =>
    obtain ⟨users, attempts, hframe⟩ := registerUser_frame s.1 s.2 username password inviteCode
      client time device outcome
    rw [call, Option.some.injEq] at h
    rw [h] at hframe
    rw [show t.1 = _ from hframe]
  | login username password time device =>
    obtain ⟨sessions, rfl⟩ := call_login_frame h
    rfl
  | authenticateBearerToken header time =>
    obtain ⟨sessions, rfl⟩ := call_authenticate_frame h
    rfl

theorem call_of_no_attempt (h : call s c = some (result, t)) (hno : attempt c = none) :
    t.1.registrationAttempts_ = s.1.registrationAttempts_ := by
  cases c with
  | registerUser username password inviteCode client time device outcome =>
    rw [attempt, ite_eq_right_iff] at hno
    have hmalformed : ¬ (validateUsername username = none ∧ validatePassword password = none) :=
      fun hboth ↦ by cases hno hboth
    rw [call, Option.some.injEq, registerUser] at h
    cases hu : validateUsername username with
    | some error =>
      rw [hu] at h
      cases h
      rfl
    | none =>
      cases hp : validatePassword password with
      | some error =>
        rw [hu, hp] at h
        cases h
        rfl
      | none => exact absurd ⟨hu, hp⟩ hmalformed
  | login username password time device =>
    obtain ⟨sessions, rfl⟩ := call_login_frame h
    rfl
  | authenticateBearerToken header time =>
    obtain ⟨sessions, rfl⟩ := call_authenticate_frame h
    rfl

theorem call_of_attempt (h : call s c = some (result, t)) (ha : attempt c = some (clientId, now)) :
    admitted (c, result) = (if (recent (seconds 60) now (kept s.1 clientId)).length <
      s.1.registrationLimitPerMinute_ then some (clientId, now) else none) ∧
    t.1.registrationAttempts_ = s.1.registrationAttempts_.insert clientId
      (record s.1.registrationLimitPerMinute_ (seconds 60) now (kept s.1 clientId)) := by
  have hadmitted : admitted (c, result) =
      if result.error ≠ lit "too many registration attempts" then some (clientId, now) else none := by
    rw [admitted, ha, Option.filter_some]
    exact if_congr (decide_eq_true_iff) rfl rfl
  cases c with
  | registerUser username password inviteCode client time device outcome =>
    rw [attempt, Option.ite_none_right_eq_some, Option.some.injEq, Prod.mk.injEq] at ha
    obtain ⟨⟨hu, hp⟩, rfl, rfl⟩ := ha
    obtain ⟨hiff, hrecord⟩ := registerUser_limiter s.1 s.2 inviteCode client time device outcome hu hp
    rw [call, Option.some.injEq] at h
    rw [h] at hiff hrecord
    exact ⟨hadmitted.trans (if_congr hiff rfl rfl), hrecord⟩
  | login => cases ha
  | authenticateBearerToken => cases ha

end Effect

section Times

variable {log : History} {e : Call × AuthResult} {clientId client : Bytes} {now : ℤ}

theorem admitted_of_no_attempt (h : attempt e.1 = none) : admitted e = none := by
  rw [admitted, h, Option.filter_none]

theorem times_append_of_none (h : admitted e = none) :
    times clientId (log ++ [e]) = times clientId log := by
  rw [times, filterMap_append_of_none h]
  rfl

theorem times_append_of_some (h : admitted e = some (client, now)) :
    times clientId (log ++ [e]) =
      if client = clientId then times clientId log ++ [now] else times clientId log := by
  rw [times, filterMap_append_of_some h, List.filter_append, List.map_append]
  by_cases hclient : client = clientId
  · rw [if_pos hclient, List.filter_cons_of_pos (by simpa using hclient)]
    rfl
  · rw [if_neg hclient, List.filter_cons_of_neg (by simpa using hclient), List.filter_nil,
      List.map_nil, List.append_nil]
    rfl

theorem mem_times {r : ℤ} (h : r ∈ times clientId log) : ∃ e ∈ log, r ∈ steady e.1 := by
  obtain ⟨⟨client, time⟩, hmem, rfl⟩ := List.mem_map.1 h
  obtain ⟨e, he, hadmitted⟩ := List.mem_filterMap.1 (List.mem_of_mem_filter hmem)
  exact ⟨e, he, (of_attempt (Option.eq_some_of_filter_eq_some hadmitted)).1⟩

end Times

/-- For each client the record agrees with the admitted times about what still counts. -/
structure Windowed (limit : ℕ) (s : Stored) (log : History) : Prop where
  setting : s.1.registrationLimitPerMinute_ = limit
  agrees : ∀ clientId now, (∀ e ∈ log, ∀ r ∈ steady e.1, r ≤ now) →
    recent (seconds 60) now (kept s.1 clientId) = recent (seconds 60) now (times clientId log)
  spaced : ∀ clientId, Admitted limit (seconds 60) (times clientId log)

section Step

variable {limit : ℕ} {s t : Stored} {log : History} {c : Call} {result : AuthResult}
  {clientId : Bytes}

theorem kept_of_attempt {client : Bytes} {now : ℤ} (h : call s c = some (result, t))
    (ha : attempt c = some (client, now)) :
    kept t.1 clientId = if client = clientId then
      record s.1.registrationLimitPerMinute_ (seconds 60) now (kept s.1 clientId)
      else kept s.1 clientId := by
  obtain ⟨-, hrecord⟩ := call_of_attempt h ha
  rw [kept, hrecord]
  split_ifs with hclient
  · subst hclient
    rw [AList.lookup_insert]
    rfl
  · rw [AList.lookup_insert_ne (Ne.symm hclient)]
    rfl

theorem times_of_attempt {client : Bytes} {now : ℤ} (h : call s c = some (result, t))
    (ha : attempt c = some (client, now)) :
    times clientId (log ++ [(c, result)]) = if client = clientId then
      (if (recent (seconds 60) now (kept s.1 clientId)).length < s.1.registrationLimitPerMinute_ then
        times clientId log ++ [now] else times clientId log)
      else times clientId log := by
  obtain ⟨hadmitted, -⟩ := call_of_attempt h ha
  split_ifs at hadmitted with hfits
  · rw [times_append_of_some hadmitted]
    split_ifs with hclient hfits'
    · rfl
    · exact absurd (hclient ▸ hfits) hfits'
    · rfl
  · rw [times_append_of_none hadmitted]
    split_ifs with hclient hfits'
    · exact absurd (hclient ▸ hfits') hfits
    · rfl
    · rfl

theorem Windowed.step (h : Windowed limit s log) (hcall : call s c = some (result, t))
    (hclock : ∀ e ∈ log, ∀ r ∈ steady e.1, ∀ now ∈ steady c, r ≤ now) :
    Windowed limit t (log ++ [(c, result)]) := by
  have hsetting := (call_limit hcall).trans h.setting
  cases hattempt : attempt c with
  | none =>
    have hkept := call_of_no_attempt hcall hattempt
    have hnone : admitted (c, result) = none := admitted_of_no_attempt hattempt
    refine ⟨hsetting, fun clientId now hnow ↦ ?_, fun clientId ↦ ?_⟩
    · rw [kept, hkept, times_append_of_none hnone]
      exact h.agrees clientId now fun e he ↦ hnow e (List.mem_append_left _ he)
    · rw [times_append_of_none hnone]
      exact h.spaced clientId
  | some arrival =>
    obtain ⟨client, now⟩ := arrival
    have hsteady := (of_attempt hattempt).1
    have hagrees := h.agrees client now fun e he r hr ↦ hclock e he r hr now hsteady
    refine ⟨hsetting, fun clientId later hlater ↦ ?_, fun clientId ↦ ?_⟩
    · rw [kept_of_attempt hcall hattempt, times_of_attempt hcall hattempt]
      have hle : now ≤ later :=
        hlater _ (List.mem_append_right _ (List.mem_singleton_self _)) now hsteady
      by_cases hclient : client = clientId
      · subst hclient
        rw [if_pos rfl, if_pos rfl, hagrees, h.setting]
        exact recent_record hagrees hle
      · rw [if_neg hclient, if_neg hclient]
        exact h.agrees clientId later fun e he ↦ hlater e (List.mem_append_left _ he)
    · rw [times_of_attempt hcall hattempt]
      split_ifs with hclient hfits
      · subst hclient
        apply every_append (h.spaced client)
        rwa [← hagrees, ← h.setting]
      · exact h.spaced clientId
      · exact h.spaced clientId

/-- An attempt is let through exactly when fewer than the limit of the client's earlier
ones lie in the closed minute that ends with it. -/
def Exact (limit : ℕ) (earlier : History) (e : Call × AuthResult) : Prop :=
  ∀ clientId now, attempt e.1 = some (clientId, now) → (admitted e ≠ none ↔
    ((times clientId earlier).filter fun r ↦ now - seconds 60 ≤ r ∧ r ≤ now).length < limit)

theorem Windowed.exact (h : Windowed limit s log) (hcall : call s c = some (result, t))
    (hclock : ∀ e ∈ log, ∀ r ∈ steady e.1, ∀ now ∈ steady c, r ≤ now) :
    Exact limit log (c, result) := by
  intro clientId now hattempt
  have hclock : ∀ e ∈ log, ∀ r ∈ steady e.1, r ≤ now :=
    fun e he r hr ↦ hclock e he r hr now (of_attempt hattempt).1
  have hclosed : ((times clientId log).filter fun r ↦ now - seconds 60 ≤ r ∧ r ≤ now) =
      recent (seconds 60) now (times clientId log) := by
    apply List.filter_congr
    intro r hr
    obtain ⟨e, he, hr⟩ := mem_times hr
    simp only [hclock e he r hr, and_true]
  rw [hclosed, ← h.agrees clientId now hclock, ← h.setting, (call_of_attempt hcall hattempt).1]
  split_ifs with hfits
  · exact iff_of_true (Option.some_ne_none _) hfits
  · exact iff_of_false (not_not_intro rfl) hfits

def Alike (clientId : Bytes) (s t : Stored) : Prop :=
  s.1.registrationLimitPerMinute_ = t.1.registrationLimitPerMinute_ ∧
    kept s.1 clientId = kept t.1 clientId

theorem Alike.other {u : Stored} (h : Alike clientId s u) (hcall : call s c = some (result, t))
    (hother : ofClient clientId c = false) : Alike clientId t u := by
  refine ⟨(call_limit hcall).trans h.1, Eq.trans ?_ h.2⟩
  cases hattempt : attempt c with
  | none => rw [kept, kept, call_of_no_attempt hcall hattempt]
  | some arrival =>
    have hclient : arrival.1 ≠ clientId := by
      intro heq
      subst heq
      rw [(of_attempt hattempt).2] at hother
      cases hother
    rw [kept_of_attempt hcall hattempt, if_neg hclient]

theorem Alike.same {s' t' : Stored} {result' : AuthResult} (h : Alike clientId s s')
    (hcall : call s c = some (result, t)) (hcall' : call s' c = some (result', t'))
    (hown : ofClient clientId c = true) :
    Alike clientId t t' ∧ admitted (c, result) = admitted (c, result') := by
  cases hattempt : attempt c with
  | none =>
    refine ⟨⟨?_, ?_⟩, ?_⟩
    · rw [call_limit hcall, call_limit hcall', h.1]
    · rw [kept, kept, call_of_no_attempt hcall hattempt, call_of_no_attempt hcall' hattempt]
      exact h.2
    · rw [admitted_of_no_attempt hattempt, admitted_of_no_attempt hattempt]
  | some arrival =>
    have hclient : arrival.1 = clientId := by
      have harrival := (of_attempt hattempt).2
      cases c with
      | registerUser => exact (eq_of_beq harrival).symm.trans (eq_of_beq hown)
      | login => cases hattempt
      | authenticateBearerToken => cases hattempt
    subst hclient
    refine ⟨⟨?_, ?_⟩, ?_⟩
    · rw [call_limit hcall, call_limit hcall', h.1]
    · rw [kept_of_attempt hcall hattempt, kept_of_attempt hcall' hattempt, h.1, h.2]
    · rw [(call_of_attempt hcall hattempt).1, (call_of_attempt hcall' hattempt).1, h.1, h.2]

def verdicts (clientId : Bytes) (log : History) : List (Call × Option (Bytes × ℤ)) :=
  (log.filter fun e ↦ ofClient clientId e.1).map fun e ↦ (e.1, admitted e)

theorem verdicts_append (log : History) (e : Call × AuthResult) :
    verdicts clientId (log ++ [e]) = verdicts clientId log ++
      if ofClient clientId e.1 then [(e.1, admitted e)] else [] := by
  rw [verdicts, List.filter_append, List.map_append, List.filter_singleton]
  cases ofClient clientId e.1 <;> rfl

theorem verdicts_alone {calls : List Call} {s' u u' : Stored} {log' later later' : History}
    (h : Alike clientId s s') (hlog : verdicts clientId log = verdicts clientId log')
    (hrun : run (logged call) (s, log) calls = some (u, later))
    (hrun' : run (logged call) (s', log') (calls.filter (ofClient clientId)) = some (u', later')) :
    verdicts clientId later = verdicts clientId later' := by
  induction calls generalizing s s' log log' with
  | nil =>
    cases hrun
    cases hrun'
    exact hlog
  | cons c calls ih =>
    rw [run_cons, Option.bind_eq_some_iff] at hrun
    obtain ⟨v, hv, hrun⟩ := hrun
    obtain ⟨⟨result, t⟩, hcall, rfl⟩ := Option.map_eq_some_iff.1 hv
    cases hown : ofClient clientId c with
    | false =>
      rw [List.filter_cons_of_neg (by simp [hown])] at hrun'
      refine ih (h.other hcall hown) ?_ hrun hrun'
      rw [verdicts_append, hown, if_neg Bool.false_ne_true, List.append_nil]
      exact hlog
    | true =>
      rw [List.filter_cons_of_pos hown, run_cons, Option.bind_eq_some_iff] at hrun'
      obtain ⟨v', hv', hrun'⟩ := hrun'
      obtain ⟨⟨result', t'⟩, hcall', rfl⟩ := Option.map_eq_some_iff.1 hv'
      obtain ⟨halike, hsame⟩ := h.same hcall hcall' hown
      refine ih halike ?_ hrun hrun'
      rw [verdicts_append, verdicts_append, hlog, hsame]

/-- As long as the clock does not go back, each attempt is judged right. -/
def Sound (limit : ℕ) (s : Stored) (log : History) : Prop :=
  ((log.map Prod.fst).filterMap steady).Pairwise (· ≤ ·) →
    Windowed limit s log ∧ Every (Exact limit) log

theorem Sound.step (h : Sound limit s log) (hcall : call s c = some (result, t)) :
    Sound limit t (log ++ [(c, result)]) := by
  intro hclock
  rw [List.map_append, List.filterMap_append, List.pairwise_append] at hclock
  obtain ⟨hbefore, -, hlast⟩ := hclock
  obtain ⟨hwindowed, hexact⟩ := h hbefore
  have hclock : ∀ e ∈ log, ∀ r ∈ steady e.1, ∀ now ∈ steady c, r ≤ now := by
    intro e he r hr now hnow
    refine hlast r (List.mem_filterMap.2 ⟨e.1, List.mem_map_of_mem he, hr⟩) now ?_
    exact List.mem_filterMap.2 ⟨c, List.mem_singleton_self c, hnow⟩
  exact ⟨hwindowed.step hcall hclock, every_append hexact (hwindowed.exact hcall hclock)⟩

end Step

theorem windowed_start (inviteCode : Bytes) (ttl limit : ℕ) (directoryOk : Bool)
    (file : Option Bytes) : Windowed limit (start inviteCode ttl limit directoryOk file) [] := by
  have hstart : ∃ users, (start inviteCode ttl limit directoryOk file).1 =
      { create inviteCode ttl limit with users_ := users } := by
    cases directoryOk with
    | false => exact ⟨_, rfl⟩
    | true => cases file <;> exact ⟨_, rfl⟩
  obtain ⟨users, hstart⟩ := hstart
  refine ⟨by rw [hstart]; rfl, fun clientId now _ ↦ ?_, fun _ ↦ every_nil⟩
  rw [hstart]
  rfl

/-- The limiter is an exact sliding window for each client, whatever the others do. -/
theorem registration_limit_exact (inviteCode : Bytes) (ttl limit : ℕ) (directoryOk : Bool)
    (file : Option Bytes) (calls : List Call) (hclock : (calls.filterMap steady).Pairwise (· ≤ ·))
    {s : Stored} {log : History}
    (hrun : run (logged call) (start inviteCode ttl limit directoryOk file, []) calls =
      some (s, log)) :
    Every (Exact limit) log ∧
    (∀ clientId u,
      ((times clientId log).filter fun r ↦ u ≤ r ∧ r ≤ u + seconds 60).length ≤ limit) ∧
    ∀ clientId t alone, run (logged call) (start inviteCode ttl limit directoryOk file, [])
      (calls.filter (ofClient clientId)) = some (t, alone) →
        verdicts clientId log = verdicts clientId alone := by
  have hactions := logged_actions hrun
  rw [List.map_nil, List.nil_append] at hactions
  rw [← hactions] at hclock
  have hsound : Sound limit s log :=
    logged_inv (fun _ _ _ _ _ h hcall ↦ h.step hcall)
      (fun _ ↦ ⟨windowed_start inviteCode ttl limit directoryOk file, every_nil⟩) hrun
  obtain ⟨hwindowed, hexact⟩ := hsound hclock
  refine ⟨hexact, fun clientId u ↦ length_closed_window_le (hwindowed.spaced clientId) u, ?_⟩
  intro clientId t alone halone
  exact verdicts_alone ⟨rfl, rfl⟩ rfl hrun halone

/-- With a limit of one, the second try of a minute is refused. -/
theorem second_try_refused :
    let calls := [
      Call.registerUser (lit "bob") (lit "password") [] (lit "127.0.0.1") 0 (fun _ ↦ 0) .written,
      Call.registerUser (lit "bob") (lit "password") [] (lit "127.0.0.1") (seconds 60) (fun _ ↦ 0)
        .written]
    ∃ s log, run (logged call) (start (lit "code") 86400 1 true none, []) calls = some (s, log) ∧
      log.map admitted = [some (lit "127.0.0.1", 0), none] ∧ Every (Exact 1) log := by
  intro calls
  refine ⟨_, _, rfl, by decide, ?_⟩
  exact (registration_limit_exact (lit "code") 86400 1 true none calls (by decide) rfl).1

end CppAiService.RegistrationLimit
