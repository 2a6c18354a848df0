import CppAiService.Foundation.LastWrite
import CppAiService.UserStore
import Mathlib.Data.List.ReduceOption
import Mathlib.Data.List.TakeWhile

namespace CppAiService.PartialLoad

open Bytes HttpCodec UserStore Foundation.LastWrite

def recordLines (file : Option Bytes) : List Bytes :=
  (getlines [] (file.getD [])).filter fun line ↦ trim line ≠ []

def entry (user : StoredUser) : Bytes × StoredUser := (user.username, user)

def inFront (lines : List Bytes) : List StoredUser :=
  (lines.map parseRecord).takeWhile Option.isSome |>.reduceOption

/-- A load changes the table only when it succeeds, and then by every record. -/
def AllOrNothing (s : UserStore) (directoryOk : Bool) (file : Option Bytes) : Prop :=
  let (ok, error, t) := s.load directoryOk file
  (ok = false → error = lit "failed to parse user data file" →
    ∀ name, t.users_.lookup name = s.users_.lookup name) ∧
  (ok = true → ∃ users : List StoredUser, (recordLines file).map parseRecord = users.map some ∧
    ∀ name, t.users_.lookup name =
      (lastWrite (users.map entry) name).or (s.users_.lookup name))

/-- The lines in front of the first one that does not parse only repeat the table. -/
def Repeats (users : Map Bytes StoredUser) (lines : List Bytes) : Prop :=
  ∀ name user, lastWrite ((inFront lines).map entry) name = some user →
    users.lookup name = some user

theorem loadLines_eq (lines : List Bytes) (users : Map Bytes StoredUser) :
    loadLines lines users =
      (((lines.filter fun line ↦ trim line ≠ []).map parseRecord).all Option.isSome,
        writeAll users ((inFront (lines.filter fun line ↦ trim line ≠ [])).map entry)) := by
  induction lines generalizing users with
  | nil => rfl
  | cons line lines ih =>
    rw [loadLines]
    split_ifs with hblank
    · rw [ih, List.filter_cons_of_neg (by simpa using hblank)]
    · rw [List.filter_cons_of_pos (by simpa using hblank)]
      cases hparse : parseRecord line with
      | none =>
        simp only [inFront, List.map_cons, hparse, List.all_cons, List.takeWhile_cons]
        rfl
      | some user =>
        simp only [inFront, List.map_cons, hparse, List.all_cons, List.takeWhile_cons,
          Option.isSome_some, if_true, Bool.true_and, List.reduceOption_cons_of_some]
        exact ih _

theorem reduceOption_map_some {results : List (Option StoredUser)}
    (h : ∀ result ∈ results, result.isSome = true) : results.reduceOption.map some = results := by
  induction results with
  | nil => rfl
  | cons result results ih =>
    obtain ⟨hresult, hrest⟩ := List.forall_mem_cons.1 h
    obtain ⟨user, rfl⟩ := Option.isSome_iff_exists.1 hresult
    rw [List.reduceOption_cons_of_some, List.map_cons, ih hrest]

theorem map_parseRecord_of_all {lines : List Bytes}
    (h : (lines.map parseRecord).all Option.isSome = true) :
    lines.map parseRecord = (inFront lines).map some := by
  have hall := List.all_eq_true.1 h
  rw [inFront, List.takeWhile_eq_self_iff.2 hall, reduceOption_map_some hall]

theorem load_some (s : UserStore) (contents : Bytes) :
    s.load true (some contents) =
      (((recordLines (some contents)).map parseRecord).all Option.isSome,
        if ((recordLines (some contents)).map parseRecord).all Option.isSome then []
        else lit "failed to parse user data file",
        { s with users_ := writeAll s.users_ ((inFront (recordLines (some contents))).map entry) }) := by
  simp only [load, loadLines_eq, recordLines, Option.getD_some, Bool.not_true, Bool.false_eq_true,
    if_false]
  rfl

/-- The load is all-or-nothing exactly when every line parses or the lines in front of the
first one that does not parse only repeat the table. -/
theorem all_or_nothing_iff (s : UserStore) (directoryOk : Bool) (file : Option Bytes) :
    AllOrNothing s directoryOk file ↔
      (directoryOk = true → none ∈ (recordLines file).map parseRecord →
        Repeats s.users_ (recordLines file)) := by
  cases directoryOk with
  | false =>
    have herror : lit "failed to create user data directory" ≠
        lit "failed to parse user data file" := by decide +kernel
    simp [AllOrNothing, load, herror]
  | true =>
  cases file with
  | none =>
    simp [AllOrNothing, load, recordLines, getlines]
  | some contents =>
    rw [AllOrNothing, load_some]
    generalize hlines : recordLines (some contents) = lines
    cases hall : (lines.map parseRecord).all Option.isSome with
    | true =>
      have hnone : none ∉ lines.map parseRecord := fun hmem ↦
        absurd (List.all_eq_true.1 hall none hmem) Bool.false_ne_true
      refine iff_of_true ⟨fun hok ↦ absurd hok.symm Bool.false_ne_true, fun _ ↦ ?_⟩
        fun _ hmem ↦ absurd hmem hnone
      exact ⟨inFront lines, map_parseRecord_of_all hall, lookup_writeAll s.users_ _⟩
    | false =>
      have hnone : none ∈ lines.map parseRecord := by
        obtain ⟨result, hmem, hresult⟩ := List.all_eq_false.1 hall
        obtain rfl : result = none := by simpa using hresult
        exact hmem
      rw [Repeats, ← lookup_writeAll_unchanged]
      constructor
      · intro h _ _
        exact h.1 rfl rfl
      · intro h
        exact ⟨fun _ _ ↦ h rfl hnone, fun hok ↦ absurd hok Bool.false_ne_true⟩

theorem repeats_empty_iff (lines : List Bytes) : Repeats ∅ lines ↔ inFront lines = [] := by
  constructor
  · intro h
    obtain hnil | ⟨users, last, hlast⟩ := (inFront lines).eq_nil_or_concat
    · exact hnil
    · have hwrite : lastWrite ((inFront lines).map entry) last.username = some last := by
        rw [hlast, List.concat_eq_append, List.map_append]
        exact (lastWrite_concat (entry last)).trans (if_pos rfl)
      exact absurd (h last.username last hwrite) (Option.some_ne_none _).symm
  · intro hnil name user hwrite
    rw [hnil] at hwrite
    exact absurd hwrite (Option.some_ne_none _).symm

/-- A new server's load is all-or-nothing when no record is in front of a bad line. -/
theorem all_or_nothing_new_iff (inviteCode : Bytes) (ttl limit : ℕ) (file : Option Bytes) :
    AllOrNothing (create inviteCode ttl limit) true file ↔
      (none ∈ (recordLines file).map parseRecord → inFront (recordLines file) = []) := by
  rw [all_or_nothing_iff, ← repeats_empty_iff]
  exact ⟨fun h ↦ h rfl, fun h _ ↦ h⟩

def alice : StoredUser := ⟨lit "alice", lit "user", lit "00", lit "11"⟩

def damaged : Bytes := recordLine alice ++ lit "oops\n"

theorem damaged_file_half_loaded :
    ¬ ∀ s directoryOk file, AllOrNothing s directoryOk file := by
  intro h
  have hsame := (h (create [] 0 0) true (some damaged)).1 (by decide +kernel) (by decide +kernel)
    (lit "alice")
  revert hsame
  decide +kernel

end CppAiService.PartialLoad
