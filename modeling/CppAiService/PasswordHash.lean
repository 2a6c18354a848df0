import CppAiService.Foundation.Mixing
import CppAiService.UserCalls

namespace CppAiService.PasswordHash

open Bytes UserStore Foundation.Log Foundation.Mixing Foundation.Run

/-- The multiplier is odd, so it has an inverse modulo `2 ^ 64`. -/
theorem isUnit_prime : IsUnit (1099511628211 : UInt64) :=
  IsUnit.of_mul_eq_one 14886173955864302971 (by decide)

theorem absorb_state_injective (ch : Byte) : Function.Injective fun hash ↦ absorb hash ch := by
  intro x y h
  exact (UInt64.xor_left_inj ch.toUInt64).1 (isUnit_prime.mul_left_injective h)

theorem absorb_letter_injective (hash : UInt64) : Function.Injective (absorb hash) := by
  intro x y h
  have hword := (UInt64.xor_right_inj hash).1 (isUnit_prime.mul_left_injective h)
  exact UInt8.toUInt64_inj.1 hword

theorem stretch_injective (salt : Bytes) (round : ℕ) :
    Function.Injective fun hash ↦ stretch salt hash round := by
  intro x y h
  have hmixed := isUnit_prime.mul_left_injective (foldl_injective absorb_state_injective salt h)
  exact (UInt64.xor_left_inj (UInt64.ofNat round)).1 hmixed

theorem hexDigit_inj : ∀ m < 16, ∀ n < 16, hexDigit m = hexDigit n → m = n := by
  decide

theorem hexFilled_injOn {width m n : ℕ} (hm : m < 16 ^ width) (hn : n < 16 ^ width)
    (h : hexFilled width m = hexFilled width n) : m = n := by
  induction width generalizing m n with
  | zero => omega
  | succ width ih =>
    rw [hexFilled, hexFilled] at h
    obtain ⟨hfront, hlast⟩ := List.append_inj' h rfl
    have hdigit := hexDigit_inj _ (Nat.mod_lt m (by decide)) _ (Nat.mod_lt n (by decide))
      (List.singleton_inj.1 hlast)
    rw [pow_succ] at hm hn
    have hrest := ih (by omega) (by omega) hfront
    omega

theorem toHex_injective : Function.Injective toHex := by
  intro x y h
  exact UInt64.toNat.inj (hexFilled_injOn x.toNat_lt y.toNat_lt h)

theorem demoHashPassword_ne (salt : Bytes) {p q : Bytes} (h : DifferOnce p q) :
    demoHashPassword salt p ≠ demoHashPassword salt q := by
  intro he
  have hstate := foldl_injective (stretch_injective salt) (List.range 4096) (toHex_injective he)
  simp only [List.foldl_append] at hstate
  exact foldl_ne absorb_state_injective absorb_letter_injective h _ hstate

theorem login_refused {s : UserStore} {username p q : Bytes} {user : StoredUser}
    (hfound : s.users_.lookup username = some user)
    (hhash : user.passwordHash = demoHashPassword user.salt p) (h : DifferOnce p q) (now : ℤ)
    (device : ℕ → UInt32) :
    s.login username q now device = (.refused (lit "invalid username or password"), s) := by
  have hne : demoHashPassword user.salt q ≠ user.passwordHash := by
    rw [hhash]
    exact (demoHashPassword_ne user.salt h).symm
  simp only [login, hfound, if_pos hne]

/-- No call changes an account that is in the table. -/
theorem call_keeps {s t : Stored} {c : Call} {result : AuthResult} {username : Bytes}
    {user : StoredUser} (hcall : call s c = some (result, t))
    (hfound : s.1.users_.lookup username = some user) :
    t.1.users_.lookup username = some user := by
  cases c with
  | registerUser name password inviteCode clientId now device outcome =>
    obtain ⟨-, hsame, -⟩ | ⟨-, -, -, -, hfree, hinsert, -⟩ :=
      registerUser_cases _ _ _ _ _ _ _ _ _ _ _ _ (Option.some.inj hcall)
    · rw [hsame, hfound]
    · have hne : username ≠ name := by
        rintro rfl
        rw [hfree] at hfound
        exact absurd hfound (Option.some_ne_none _).symm
      rw [hinsert, AList.lookup_insert_ne hne, hfound]
  | login name password now device =>
    obtain ⟨sessions, rfl⟩ := call_login_frame hcall
    exact hfound
  | authenticateBearerToken header now =>
    obtain ⟨sessions, rfl⟩ := call_authenticate_frame hcall
    exact hfound

theorem run_keeps {s t : Stored × History} {calls : List Call} {username : Bytes}
    {user : StoredUser} (hrun : run (logged call) s calls = some t)
    (hfound : s.1.1.users_.lookup username = some user) :
    t.1.1.users_.lookup username = some user := by
  have hstep : ∀ (v : Stored × History) c w, v.1.1.users_.lookup username = some user →
      logged call v c = some w → w.1.1.users_.lookup username = some user := by
    intro v c w hv hnext
    obtain ⟨⟨result, x⟩, hcall, rfl⟩ := Option.map_eq_some_iff.1 hnext
    exact call_keeps hcall hv
  exact run_inv hstep hfound hrun

theorem registered_account {s t : Stored} {username password inviteCode clientId : Bytes}
    {now : ℤ} {device : ℕ → UInt32} {outcome : AppendOutcome} {result : AuthResult}
    (hcall : call s (.registerUser username password inviteCode clientId now device outcome) =
      some (result, t)) (hok : result.ok = true) :
    t.1.users_.lookup username = some (newUser username password device) := by
  obtain ⟨hno, -⟩ | ⟨-, -, -, -, -, hinsert, -⟩ :=
    registerUser_cases _ _ _ _ _ _ _ _ _ _ _ _ (Option.some.inj hcall)
  · exact absurd (hok.symm.trans hno) Bool.false_ne_true.symm
  · rw [hinsert, AList.lookup_insert]

/-- A password with one wrong character opens no account of the right one. -/
theorem mistyped_password_refused :
    (∀ salt, Function.Injective fun hash ↦ (List.range 4096).foldl (stretch salt) hash) ∧
    ∀ p q : Bytes, DifferOnce p q →
      (∀ salt, demoHashPassword salt p ≠ demoHashPassword salt q) ∧
      (∀ (s : UserStore) (username : Bytes) (user : StoredUser) (now : ℤ) (device : ℕ → UInt32),
        s.users_.lookup username = some user →
        user.passwordHash = demoHashPassword user.salt p →
        s.login username q now device = (.refused (lit "invalid username or password"), s)) ∧
      ∀ (s t : Stored) (username inviteCode clientId : Bytes) (now : ℤ) (device : ℕ → UInt32)
        (outcome : AppendOutcome) (result : AuthResult) (calls : List Call) (u : Stored)
        (log : History) (later : ℤ) (readings : ℕ → UInt32),
        call s (.registerUser username p inviteCode clientId now device outcome) =
          some (result, t) → result.ok = true →
        run (logged call) (t, []) calls = some (u, log) →
        u.1.login username q later readings =
          (.refused (lit "invalid username or password"), u.1) := by
  refine ⟨fun salt ↦ foldl_injective (stretch_injective salt) _, fun p q h ↦ ⟨?_, ?_, ?_⟩⟩
  · intro salt
    exact demoHashPassword_ne salt h
  · intro s username user now device hfound hhash
    exact login_refused hfound hhash h now device
  · intro s t username inviteCode clientId now device outcome result calls u log later readings
      hcall hok hrun
    have hkept := run_keeps hrun (registered_account hcall hok)
    exact login_refused hkept rfl h later readings

def alice : AuthResult × Stored :=
  (create [] 3600 5).registerUser none (lit "alice") (lit "password1") [] [] 0 (fun _ ↦ 0) .written

theorem passwore1_refused : (alice.2.1.login (lit "alice") (lit "passwore1") 1 fun _ ↦ 7) =
    (.refused (lit "invalid username or password"), alice.2.1) := by
  have hdiffer : DifferOnce (lit "password1") (lit "passwore1") :=
    differOnce_iff.2 ⟨lit "passwor", ascii 'd', ascii 'e', lit "1", rfl, rfl, by decide⟩
  exact (mistyped_password_refused.2 _ _ hdiffer).2.2 (create [] 3600 5, none) alice.2 (lit "alice")
    [] [] 0 (fun _ ↦ 0) .written alice.1 [] alice.2 [] 1 (fun _ ↦ 7) rfl rfl rfl

end CppAiService.PasswordHash
