import CppAiService.FieldExtraction
import CppAiService.UserStore
import Mathlib.Data.List.TakeWhile

namespace CppAiService.UserFile

open Bytes HttpCodec UserStore FieldExtraction Foundation Foundation.EscapeCode

def members (user : StoredUser) : Members :=
  [(lit "username", user.username), (lit "role", user.role), (lit "salt", user.salt),
    (lit "password_hash", user.passwordHash)]

theorem recordLine_eq (user : StoredUser) :
    recordLine user = encodeObject (members user) ++ [ascii '\n'] := by
  simp [recordLine, members, encodeObject, member, moreMembers, lit]

theorem isName_of_mem_members {user : StoredUser} {m : Bytes × Bytes} (hm : m ∈ members user) :
    IsName m.1 := by
  simp only [members, List.mem_cons, List.not_mem_nil, or_false] at hm
  rcases hm with rfl | rfl | rfl | rfl <;> dsimp only <;> decide +kernel

/-- What registration writes: no quote in any field, and fields of these lengths. -/
structure WellFormed (user : StoredUser) : Prop where
  username : ∀ ch ∈ user.username, isalnum ch ∨ ch = ascii '_' ∨ ch = ascii '-'
  role : user.role = lit "user"
  salt : ∀ ch ∈ user.salt, isalnum ch
  salt_length : user.salt.length = 32
  hash : ∀ ch ∈ user.passwordHash, isalnum ch
  hash_length : user.passwordHash.length = 16

theorem newUser_wellFormed {username : Bytes} (h : validateUsername username = none)
    (password : Bytes) (device : ℕ → UInt32) : WellFormed (newUser username password device) where
  username ch hch := by
    unfold validateUsername at h
    split_ifs at h with h₁ h₂
    rw [Bool.not_eq_true, List.any_eq_false] at h₂
    have hc := h₂ ch hch
    simp only [Bool.and_eq_true, Bool.not_eq_eq_eq_not, Bool.not_true, bne_iff_ne, ne_eq,
      not_and, Decidable.not_not] at hc
    by_cases ha : isalnum ch
    · exact .inl ha
    · by_cases hu : ch = ascii '_'
      · exact .inr (.inl hu)
      · exact .inr (.inr (hc ⟨by simpa using ha, hu⟩))
  role := rfl
  salt _ hch := isalnum_of_mem_randomHex hch
  salt_length := length_randomHex device 16
  hash _ hch := isalnum_of_mem_toHex hch
  hash_length := length_hexFilled 16 _

/-- The account as a reload finds it. The scan for a field whose name is the username
stops there and reads on to the next member, which is the role. -/
def reloaded (user : StoredUser) : StoredUser :=
  { user with
    salt := if user.username = lit "salt" then user.role else user.salt
    passwordHash := if user.username = lit "password_hash" then user.role else user.passwordHash }

theorem quote_not_mem_of_isalnum {s : Bytes} (h : ∀ ch ∈ s, isalnum ch) :
    jsonCode.quote ∉ s :=
  fun hq ↦ absurd (h _ hq) (by decide)

theorem WellFormed.quote_not_mem_username {user : StoredUser} (h : WellFormed user) :
    jsonCode.quote ∉ user.username := by
  intro hq
  have hf := h.username _ hq
  revert hf
  decide

theorem parseRecord_members {user : StoredUser} (h : WellFormed user) :
    parseRecord (encodeObject (members user)) = some (reloaded user) := by
  have hm : ∀ m ∈ members user, IsName m.1 := fun m hm ↦ isName_of_mem_members hm
  have hu (w : Bytes) := endsQuoted_iff_of_quote_not_mem (w := w) h.quote_not_mem_username
  have hs (w : Bytes) := endsQuoted_iff_of_quote_not_mem (w := w) (quote_not_mem_of_isalnum h.salt)
  have hr : ∀ w, jsonCode.EndsQuoted w user.role ↔ user.role = w := fun w ↦
    endsQuoted_iff_of_quote_not_mem (by rw [h.role]; decide)
  have hsalt : user.salt ≠ lit "password_hash" := by
    intro he
    have hl := h.salt_length
    rw [he] at hl
    revert hl
    decide
  have husername : scannedField (lit "username") (members user) = some user.username := by
    simp [members, scannedField]
  have hrole : scannedField (lit "role") (members user) = some user.role := by
    have h₁ : lit "username" ≠ lit "role" := by decide
    simp [members, scannedField, h₁]
  have hsaltField : scannedField (lit "salt") (members user) = some (reloaded user).salt := by
    have h₁ : lit "username" ≠ lit "salt" := by decide
    have h₂ : lit "role" ≠ lit "salt" := by decide
    have h₃ : user.role ≠ lit "salt" := by rw [h.role]; decide
    simp only [members, scannedField, h₁, h₂, ↓reduceIte, hu, hr, h₃, List.head?_cons,
      Option.map_some, reloaded]
    split_ifs <;> rfl
  have hhashField : scannedField (lit "password_hash") (members user) =
      some (reloaded user).passwordHash := by
    have h₁ : lit "username" ≠ lit "password_hash" := by decide
    have h₂ : lit "role" ≠ lit "password_hash" := by decide
    have h₃ : lit "salt" ≠ lit "password_hash" := by decide
    have h₄ : user.role ≠ lit "password_hash" := by rw [h.role]; decide
    simp only [members, scannedField, h₁, h₂, h₃, ↓reduceIte, hu, hr, hs, h₄, hsalt,
      List.head?_cons, Option.map_some, reloaded]
    split_ifs <;> rfl
  rw [parseRecord, extract_encodeObject (by decide +kernel) hm,
    extract_encodeObject (by decide +kernel) hm, extract_encodeObject (by decide +kernel) hm,
    extract_encodeObject (by decide +kernel) hm, husername, hrole,
    hsaltField, hhashField]
  rfl

theorem reloaded_eq_self_iff {user : StoredUser} (h : WellFormed user) :
    reloaded user = user ↔
      user.username ≠ lit "salt" ∧ user.username ≠ lit "password_hash" := by
  have hsalt : user.role ≠ user.salt := by
    intro he
    have hl := h.salt_length
    rw [← he, h.role] at hl
    revert hl
    decide
  have hhash : user.role ≠ user.passwordHash := by
    intro he
    have hl := h.hash_length
    rw [← he, h.role] at hl
    revert hl
    decide
  obtain ⟨username, role, salt, passwordHash⟩ := user
  simp only [reloaded, StoredUser.mk.injEq, true_and, ite_eq_right_iff]
  exact ⟨fun ⟨h₁, h₂⟩ ↦ ⟨fun hu ↦ hsalt (h₁ hu), fun hu ↦ hhash (h₂ hu)⟩,
    fun ⟨h₁, h₂⟩ ↦ ⟨fun hu ↦ absurd hu h₁, fun hu ↦ absurd hu h₂⟩⟩

theorem newline_not_mem_jsonEscape (s : Bytes) : ascii '\n' ∉ jsonEscape s := by
  intro h
  obtain ⟨ch, -, hch⟩ := List.mem_flatMap.mp h
  unfold jsonEscapeByte at hch
  split_ifs at hch with h₁ h₂ h₃ h₄ h₅
  all_goals first | exact absurd hch (by decide) | skip
  exact h₃ (List.mem_singleton.mp hch).symm

theorem newline_not_mem_record (user : StoredUser) :
    ascii '\n' ∉ encodeObject (members user) := by
  have h := newline_not_mem_jsonEscape
  simp only [members, encodeObject, member, moreMembers, List.mem_cons, List.mem_append, h,
    List.not_mem_nil, false_or, or_false]
  decide

theorem getlines_append {x : Bytes} (hx : ascii '\n' ∉ x) (line rest : Bytes) :
    getlines line (x ++ ascii '\n' :: rest) = (line ++ x) :: getlines [] rest := by
  induction x generalizing line with
  | nil => simp [getlines]
  | cons ch x ih =>
    obtain ⟨hch, hx⟩ := List.ne_and_not_mem_of_not_mem_cons hx
    rw [List.cons_append, getlines, if_neg hch.symm, ih hx, List.append_assoc,
      List.singleton_append]

theorem getlines_records (ledger : List StoredUser) :
    getlines [] (ledger.flatMap recordLine) =
      ledger.map fun user ↦ encodeObject (members user) := by
  induction ledger with
  | nil => rfl
  | cons user ledger ih =>
    rw [List.flatMap_cons, recordLine_eq, List.append_assoc, List.singleton_append,
      getlines_append (newline_not_mem_record user), ih]
    rfl

theorem trim_ne_nil {ch : Byte} {s : Bytes} (h : isspace ch = false) : trim (ch :: s) ≠ [] := by
  intro ht
  rw [trim, List.dropWhile_cons_of_neg (by simp [h]), List.reverse_eq_nil_iff,
    List.dropWhile_eq_nil_iff] at ht
  have hc := ht ch (List.mem_reverse.mpr List.mem_cons_self)
  rw [h] at hc
  cases hc

theorem trim_record_ne_nil (user : StoredUser) : trim (encodeObject (members user)) ≠ [] :=
  trim_ne_nil (by decide : isspace (ascii '{') = false)

theorem loadLines_records {ledger : List StoredUser} (h : ∀ user ∈ ledger, WellFormed user)
    (users : Map Bytes StoredUser) :
    loadLines (ledger.map fun user ↦ encodeObject (members user)) users =
      (true, ledger.foldl (fun users user ↦ users.insert user.username (reloaded user)) users) := by
  induction ledger generalizing users with
  | nil => rfl
  | cons user ledger ih =>
    obtain ⟨hu, h⟩ := List.forall_mem_cons.mp h
    rw [List.map_cons, loadLines, if_neg (trim_record_ne_nil user), parseRecord_members hu]
    exact ih h _

theorem lookup_foldl_insert {ledger : List StoredUser} (hnd : (ledger.map (·.username)).Nodup)
    (users : Map Bytes StoredUser) :
    (∀ user ∈ ledger, (ledger.foldl (fun users user ↦ users.insert user.username
      (reloaded user)) users).lookup user.username = some (reloaded user)) ∧
    ∀ name ∉ ledger.map (·.username), (ledger.foldl (fun users user ↦
      users.insert user.username (reloaded user)) users).lookup name = users.lookup name := by
  induction ledger generalizing users with
  | nil => simp
  | cons user ledger ih =>
    rw [List.map_cons, List.nodup_cons] at hnd
    obtain ⟨hin, hout⟩ := ih hnd.2 (users.insert user.username (reloaded user))
    constructor
    · intro u hu
      rw [List.foldl_cons]
      rcases List.mem_cons.mp hu with rfl | hu
      · rw [hout _ hnd.1, AList.lookup_insert]
      · exact hin u hu
    · intro name hname
      rw [List.map_cons, List.mem_cons, not_or] at hname
      rw [List.foldl_cons, hout name hname.2, AList.lookup_insert_ne hname.1]

end CppAiService.UserFile
