import CppAiService.UserCalls
import CppAiService.UserFile

namespace CppAiService.TornRecords

open Bytes HttpCodec UserStore UserFile FieldExtraction
open Foundation Foundation.Search Foundation.Run Foundation.Log

def fieldNames : List Bytes := [lit "username", lit "role", lit "salt", lit "password_hash"]

/-- A torn beginning that no field of the record behind it is read from. -/
structure Quiet (x : Bytes) : Prop where
  colon : ascii ':' ∉ x
  newline : ascii '\n' ∉ x
  names : ∀ w ∈ fieldNames, w ≠ lit "username" → ¬ quoted w <:+: x

theorem brace_not_mem_quoted {w : Bytes} (hw : w ∈ fieldNames) : ascii '{' ∉ quoted w := by
  revert w
  decide

theorem extract_username (user : StoredUser) :
    extractJsonStringField (encodeObject (members user)) (lit "username") = some user.username := by
  rw [extract_encodeObject (by decide) fun m hm ↦ isName_of_mem_members hm]
  simp [members, scannedField]

theorem readAfter_record (user : StoredUser) :
    readAfter (encodeObject (members user)) = some user.username :=
  readAfter_quoted (x := ascii '{' :: quoted (lit "username")) (by decide) user.username _

theorem extract_behind {x w : Bytes} (hx : Quiet x) (user : StoredUser) (hw : w ∈ fieldNames) :
    extractJsonStringField (x ++ encodeObject (members user)) w =
      extractJsonStringField (encodeObject (members user)) w := by
  by_cases hshown : quoted w <:+: x
  · -- only the first field can be shown, and its value is what follows the first colon
    obtain rfl : w = lit "username" := by
      by_contra hname
      exact hx.names w hw hname hshown
    obtain ⟨y, hy, hafter⟩ := afterFirst_append_of_present hshown
    have hskip : ascii ':' ∉ y := fun hmem ↦ hx.colon (hy.subset hmem)
    rw [extract_username, ← readAfter_record, extractJsonStringField_eq]
    change (afterFirst (quoted (lit "username")) _).bind readAfter = _
    rw [hafter, Option.bind_some, readAfter, readAfter, afterFirst_skip hskip]
  · rw [extractJsonStringField_eq, extractJsonStringField_eq]
    change (afterFirst (quoted w) (x ++ ascii '{' :: _)).bind readAfter =
      (afterFirst (quoted w) (ascii '{' :: _)).bind readAfter
    rw [afterFirst_append_of_absent hshown (brace_not_mem_quoted hw)]

theorem parseRecord_behind {x : Bytes} (hx : Quiet x) (user : StoredUser) :
    parseRecord (x ++ encodeObject (members user)) = parseRecord (encodeObject (members user)) := by
  unfold parseRecord
  rw [extract_behind hx user (w := lit "username") (by decide),
    extract_behind hx user (w := lit "role") (by decide),
    extract_behind hx user (w := lit "salt") (by decide),
    extract_behind hx user (w := lit "password_hash") (by decide)]

def unfinished (line : Bytes) : Bytes → Bytes
  | [] => line
  | ch :: rest =>
    if ch = ascii '\n' then unfinished [] rest else unfinished (line ++ [ch]) rest

def finished (lines : List Bytes) : Bytes := lines.flatMap fun line ↦ line ++ [ascii '\n']

theorem unfinished_append {x : Bytes} (hx : ascii '\n' ∉ x) (line rest : Bytes) :
    unfinished line (x ++ rest) = unfinished (line ++ x) rest := by
  induction x generalizing line with
  | nil => rw [List.append_nil, List.nil_append]
  | cons ch x ih =>
    obtain ⟨hch, hx⟩ := List.ne_and_not_mem_of_not_mem_cons hx
    rw [List.cons_append, unfinished, if_neg hch.symm, ih hx, List.append_assoc,
      List.singleton_append]

theorem unfinished_of_not_mem {tail : Bytes} (h : ascii '\n' ∉ tail) : unfinished [] tail = tail := by
  have happend := unfinished_append h [] []
  rw [List.append_nil] at happend
  exact happend

theorem getlines_of_not_mem {tail : Bytes} (h : ascii '\n' ∉ tail) (line : Bytes) :
    getlines line tail = if line ++ tail = [] then [] else [line ++ tail] := by
  induction tail generalizing line with
  | nil => rw [List.append_nil, getlines]
  | cons ch tail ih =>
    obtain ⟨hch, htail⟩ := List.ne_and_not_mem_of_not_mem_cons h
    rw [getlines, if_neg hch.symm, ih htail, List.append_assoc, List.singleton_append]

section Lines

variable {lines : List Bytes} {tail : Bytes}

theorem unfinished_file (hlines : ∀ line ∈ lines, ascii '\n' ∉ line) (htail : ascii '\n' ∉ tail) :
    unfinished [] (finished lines ++ tail) = tail := by
  induction lines with
  | nil => exact unfinished_of_not_mem htail
  | cons line lines ih =>
    obtain ⟨hline, hlines⟩ := List.forall_mem_cons.1 hlines
    rw [finished, List.flatMap_cons, List.append_assoc, List.append_assoc,
      unfinished_append hline, List.singleton_append, unfinished, if_pos rfl]
    exact ih hlines

theorem getlines_file (hlines : ∀ line ∈ lines, ascii '\n' ∉ line) :
    getlines [] (finished lines ++ tail) = lines ++ getlines [] tail := by
  induction lines with
  | nil => rfl
  | cons line lines ih =>
    obtain ⟨hline, hlines⟩ := List.forall_mem_cons.1 hlines
    rw [finished, List.flatMap_cons, List.append_assoc, List.append_assoc,
      List.singleton_append, getlines_append hline]
    exact congrArg (line :: ·) (ih hlines)

/-- A last line that is no record adds nothing. -/
theorem loadLines_tail (htail : ascii '\n' ∉ tail) (hparse : parseRecord tail = none)
    (users : Map Bytes StoredUser) : (loadLines (getlines [] tail) users).2 = users := by
  rw [getlines_of_not_mem htail, List.nil_append]
  split_ifs
  · rfl
  · rw [loadLines]
    split_ifs
    · rfl
    · rw [hparse]

end Lines

/-- The registration gets as far as the file. -/
def Appends (s : UserStore) (username password inviteCode clientId : Bytes) (now : ℤ) : Prop :=
  validateUsername username = none ∧ validatePassword password = none ∧
    (s.isRegistrationLimitedLocked clientId now).1 = false ∧
    (s.inviteCode_ = [] ∨ inviteCode = s.inviteCode_) ∧ s.users_.lookup username = none

/-- A record is completed only where the unfinished line has not come as far as a colon; a
failing write leaves a line that is neither finished nor a record. -/
def Harmless (s : Stored) : Call → Prop
  | .registerUser username password inviteCode clientId now device outcome =>
    Appends s.1 username password inviteCode clientId now →
      match outcome with
      | .noDirectory => True
      | .openFails => True
      | .writeFails written =>
        written < (recordLine (newUser username password device)).length ∧
          parseRecord (unfinished [] (s.2.getD []) ++
            (recordLine (newUser username password device)).take written) = none
      | .written => ascii ':' ∉ unfinished [] (s.2.getD [])
  | _ => True

section Register

variable {s : UserStore} {username password inviteCode clientId : Bytes} {now : ℤ}

theorem registerUser_of_not_appends
    (h : ¬ Appends s username password inviteCode clientId now) (file : Option Bytes)
    (device : ℕ → UInt32) (outcome : AppendOutcome) :
    ∃ error t, s.registerUser file username password inviteCode clientId now device outcome =
      (.refused error, t, file) ∧ t.users_ = s.users_ := by
  obtain ⟨attempts, hframe⟩ := isRegistrationLimitedLocked_frame s clientId now
  unfold Appends at h
  unfold registerUser
  cases hu : validateUsername username with
  | some error => exact ⟨error, s, rfl, rfl⟩
  | none =>
    cases hp : validatePassword password with
    | some error => exact ⟨error, s, rfl, rfl⟩
    | none =>
      generalize s.isRegistrationLimitedLocked clientId now = r at h hframe ⊢
      obtain ⟨limited, t⟩ := r
      obtain rfl : t = _ := hframe
      dsimp only [Option.orElse_none]
      split_ifs with hlimit hinvite hdup
      · exact ⟨_, _, rfl, rfl⟩
      · exact ⟨_, _, rfl, rfl⟩
      · exact ⟨_, _, rfl, rfl⟩
      · have hinvite : s.inviteCode_ = [] ∨ inviteCode = s.inviteCode_ := by
          rw [not_and_or, not_not, not_not] at hinvite
          exact hinvite
        exact absurd ⟨hu, hp, Bool.eq_false_iff.2 hlimit, hinvite,
          Option.not_isSome_iff_eq_none.1 hdup⟩ h

theorem registerUser_of_appends (h : Appends s username password inviteCode clientId now)
    (file : Option Bytes) (device : ℕ → UInt32) (outcome : AppendOutcome) :
    ∃ result t, s.registerUser file username password inviteCode clientId now device outcome =
      (result, t, (appendUserLocked (newUser username password device) file outcome).2) ∧
      (outcome ≠ .written → result.ok = false ∧ t.users_ = s.users_) ∧
      (outcome = .written → result.ok = true ∧
        t.users_ = s.users_.insert username (newUser username password device)) := by
  obtain ⟨attempts, hframe⟩ := isRegistrationLimitedLocked_frame s clientId now
  obtain ⟨hu, hp, hlimit, hinvite, hfree⟩ := h
  unfold registerUser
  rw [hu, hp]
  generalize s.isRegistrationLimitedLocked clientId now = r at hlimit hframe
  obtain ⟨limited, t⟩ := r
  obtain rfl : t = _ := hframe
  obtain rfl : limited = _ := hlimit
  have hinvite : ¬ (s.inviteCode_ ≠ [] ∧ inviteCode ≠ s.inviteCode_) := by
    rw [not_and_or, not_not, not_not]
    exact hinvite
  have hfree : ¬ (s.users_.lookup username).isSome = true := by rw [hfree]; decide
  dsimp only [Option.orElse_none]
  rw [if_neg Bool.false_ne_true, if_neg hinvite, if_neg hfree]
  cases outcome with
  | noDirectory => exact ⟨_, _, rfl, fun _ ↦ ⟨rfl, rfl⟩, fun h ↦ by cases h⟩
  | openFails => exact ⟨_, _, rfl, fun _ ↦ ⟨rfl, rfl⟩, fun h ↦ by cases h⟩
  | writeFails written => exact ⟨_, _, rfl, fun _ ↦ ⟨rfl, rfl⟩, fun h ↦ by cases h⟩
  | written => exact ⟨_, _, rfl, fun h ↦ absurd rfl h, fun _ ↦ ⟨rfl, rfl⟩⟩

end Register

def registered : Call × AuthResult → Option StoredUser
  | (.registerUser username password _ _ _ device _, result) =>
    if result.ok then some (newUser username password device) else none
  | _ => none

def accounts (log : History) : List StoredUser := log.filterMap registered

def reload (s : Stored) : Map Bytes StoredUser := (start [] 0 0 true s.2).1.users_

structure Undamaged (s : Stored) (log : History) : Prop where
  kept : ∀ user ∈ accounts log, user.username ∉ fieldNames →
    (reload s).lookup user.username = some user
  only : ∀ name ∈ (reload s).keys, name ∈ (accounts log).map (·.username)

/-- A line of the file: what was left of torn records, and the record behind it. -/
abbrev Line := Bytes × StoredUser

def Line.text (line : Line) : Bytes := line.1 ++ encodeObject (members line.2)

structure Torn (lines : List Line) (tail : Bytes) (s : Stored) (log : History) : Prop where
  file : s.2.getD [] = finished (lines.map Line.text) ++ tail
  quiet : ∀ line ∈ lines, Quiet line.1
  wellFormed : ∀ line ∈ lines, WellFormed line.2
  users : lines.map Prod.snd = accounts log
  nodup : ((accounts log).map (·.username)).Nodup
  taken : ∀ user ∈ accounts log, s.1.users_.lookup user.username ≠ none
  newline : ascii '\n' ∉ tail
  unread : parseRecord tail = none
  faint : ascii ':' ∉ tail → Quiet tail

section Step

variable {lines : List Line} {tail : Bytes} {s t : Stored} {log : History} {c : Call}
  {result : AuthResult}

theorem Torn.newline_not_mem (h : Torn lines tail s log) :
    ∀ text ∈ lines.map Line.text, ascii '\n' ∉ text := by
  intro text htext
  obtain ⟨line, hline, rfl⟩ := List.mem_map.1 htext
  rw [Line.text, List.mem_append, not_or]
  exact ⟨(h.quiet line hline).newline, newline_not_mem_record line.2⟩

theorem Torn.unfinished_eq (h : Torn lines tail s log) : unfinished [] (s.2.getD []) = tail := by
  rw [h.file]
  exact unfinished_file h.newline_not_mem h.newline

theorem accounts_append_of_none (h : registered (c, result) = none) :
    accounts (log ++ [(c, result)]) = accounts log := filterMap_append_of_none h

theorem accounts_append_of_some {user : StoredUser} (h : registered (c, result) = some user) :
    accounts (log ++ [(c, result)]) = accounts log ++ [user] := filterMap_append_of_some h

theorem Torn.unchanged (h : Torn lines tail s log) (hnone : registered (c, result) = none)
    (husers : t.1.users_ = s.1.users_) (hfile : t.2 = s.2) :
    Torn lines tail t (log ++ [(c, result)]) := by
  refine ⟨?_, h.quiet, h.wellFormed, ?_, ?_, ?_, h.newline, h.unread, h.faint⟩
  · rw [hfile]
    exact h.file
  · rw [accounts_append_of_none hnone]
    exact h.users
  · rw [accounts_append_of_none hnone]
    exact h.nodup
  · rw [accounts_append_of_none hnone, husers]
    exact h.taken

theorem username_not_shown : ∀ w ∈ fieldNames, w ≠ lit "username" →
    ¬ quoted w <:+: quoted (lit "username") := by decide

/-- Torn records without a colon show no field but the first. -/
theorem Quiet.append {x : Bytes} (hx : Quiet x) (user : StoredUser) {k : ℕ}
    (hcolon : ascii ':' ∉ (encodeObject (members user)).take k)
    (hnewline : ascii '\n' ∉ (encodeObject (members user)).take k) :
    Quiet (x ++ (encodeObject (members user)).take k) where
  colon := by
    rw [List.mem_append, not_or]
    exact ⟨hx.colon, hcolon⟩
  newline := by
    rw [List.mem_append, not_or]
    exact ⟨hx.newline, hnewline⟩
  names := by
    intro w hw hname hshown
    cases k with
    | zero =>
      rw [List.take_zero, List.append_nil] at hshown
      exact hx.names w hw hname hshown
    | succ k =>
      have htake : (encodeObject (members user)).take (k + 1) = ascii '{' ::
          (quoted (lit "username") ++ ascii ':' :: ascii '"' :: (jsonEscape user.username ++
            ascii '"' :: moreMembers (members user).tail)).take k := rfl
      rw [htake] at hshown hcolon
      obtain hshown | hshown := infix_of_append_cons (brace_not_mem_quoted hw) hshown
      · exact hx.names w hw hname hshown
      · have hprefix := prefix_of_append_cons
          (fun hmem ↦ hcolon (List.mem_cons_of_mem _ hmem)) (List.take_prefix k _)
        exact username_not_shown w hw hname (hshown.trans hprefix.isInfix)

theorem take_recordLine {user : StoredUser} {k : ℕ} (hk : k < (recordLine user).length) :
    (recordLine user).take k = (encodeObject (members user)).take k := by
  rw [recordLine_eq] at hk ⊢
  rw [List.length_append, List.length_singleton] at hk
  exact List.take_append_of_le_length (Nat.le_of_lt_succ hk)

theorem Torn.tear (h : Torn lines tail s log) (hnone : registered (c, result) = none)
    (husers : t.1.users_ = s.1.users_) {user : StoredUser} {k : ℕ}
    (hk : k < (recordLine user).length)
    (hfile : t.2 = some (s.2.getD [] ++ (recordLine user).take k))
    (hunread : parseRecord (tail ++ (recordLine user).take k) = none) :
    Torn lines (tail ++ (recordLine user).take k) t (log ++ [(c, result)]) := by
  have hnewline : ascii '\n' ∉ (encodeObject (members user)).take k :=
    fun hmem ↦ newline_not_mem_record user (List.mem_of_mem_take hmem)
  refine ⟨?_, h.quiet, h.wellFormed, ?_, ?_, ?_, ?_, hunread, ?_⟩
  · rw [hfile, Option.getD_some, h.file, List.append_assoc]
  · rw [accounts_append_of_none hnone]
    exact h.users
  · rw [accounts_append_of_none hnone]
    exact h.nodup
  · rw [accounts_append_of_none hnone, husers]
    exact h.taken
  · rw [take_recordLine hk, List.mem_append, not_or]
    exact ⟨h.newline, hnewline⟩
  · rw [take_recordLine hk]
    intro hcolon
    rw [List.mem_append, not_or] at hcolon
    exact (h.faint hcolon.1).append user hcolon.2 hnewline

theorem quiet_nil : Quiet [] :=
  ⟨List.not_mem_nil, List.not_mem_nil,
    fun _ _ _ h ↦ List.cons_ne_nil _ _ (List.infix_nil.1 h)⟩

theorem parseRecord_nil : parseRecord [] = none := by decide

theorem Torn.complete (h : Torn lines tail s log) {user : StoredUser}
    (hsome : registered (c, result) = some user) (hvalid : WellFormed user)
    (hfree : s.1.users_.lookup user.username = none)
    (husers : t.1.users_ = s.1.users_.insert user.username user)
    (hfile : t.2 = some (s.2.getD [] ++ recordLine user)) (hcolon : ascii ':' ∉ tail) :
    Torn (lines ++ [(tail, user)]) [] t (log ++ [(c, result)]) where
  file := by
    rw [hfile, Option.getD_some, h.file, List.map_append, finished, finished, List.flatMap_append,
      recordLine_eq, List.append_nil]
    simp only [List.map_cons, List.map_nil, List.flatMap_cons, List.flatMap_nil, List.append_nil,
      Line.text, List.append_assoc]
  quiet := by
    intro line hline
    obtain hline | hline := List.mem_append.1 hline
    · exact h.quiet line hline
    · obtain rfl := List.mem_singleton.1 hline
      exact h.faint hcolon
  wellFormed := by
    intro line hline
    obtain hline | hline := List.mem_append.1 hline
    · exact h.wellFormed line hline
    · obtain rfl := List.mem_singleton.1 hline
      exact hvalid
  users := by
    rw [accounts_append_of_some hsome, List.map_append, h.users]
    rfl
  nodup := by
    rw [accounts_append_of_some hsome, List.map_append, List.nodup_append]
    refine ⟨h.nodup, List.nodup_singleton _, fun name hname other hother heq ↦ ?_⟩
    obtain ⟨known, hknown, rfl⟩ := List.mem_map.1 hname
    obtain rfl := List.mem_singleton.1 hother
    exact h.taken known hknown (heq ▸ hfree)
  taken := by
    rw [accounts_append_of_some hsome, husers]
    intro known hknown
    by_cases hname : known.username = user.username
    · rw [hname, AList.lookup_insert]
      exact Option.some_ne_none _
    · rw [AList.lookup_insert_ne hname]
      obtain hknown | hknown := List.mem_append.1 hknown
      · exact h.taken known hknown
      · exact absurd (congrArg _ (List.mem_singleton.1 hknown)) hname
  newline := by decide
  unread := parseRecord_nil
  faint := fun _ ↦ quiet_nil

theorem Torn.step (h : Torn lines tail s log) (hok : Harmless s c)
    (hcall : call s c = some (result, t)) :
    ∃ lines' tail', Torn lines' tail' t (log ++ [(c, result)]) := by
  cases c with
  | registerUser username password inviteCode clientId now device outcome =>
    rw [call, Option.some.injEq] at hcall
    by_cases happends : Appends s.1 username password inviteCode clientId now
    · have hok := hok happends
      obtain ⟨answer, u, hregister, hno, hyes⟩ :=
        registerUser_of_appends happends s.2 device outcome
      rw [hregister, Prod.mk.injEq] at hcall
      obtain ⟨rfl, rfl⟩ := hcall
      cases outcome with
      | noDirectory =>
        obtain ⟨hfailed, husers⟩ := hno (by simp)
        exact ⟨lines, tail, h.unchanged (by simp [registered, hfailed]) husers rfl⟩
      | openFails =>
        obtain ⟨hfailed, husers⟩ := hno (by simp)
        exact ⟨lines, tail, h.unchanged (by simp [registered, hfailed]) husers rfl⟩
      | writeFails written =>
        obtain ⟨hfailed, husers⟩ := hno (by simp)
        obtain ⟨hshort, hunread⟩ := hok
        rw [h.unfinished_eq] at hunread
        exact ⟨lines, _, h.tear (by simp [registered, hfailed]) husers hshort rfl hunread⟩
      | written =>
        obtain ⟨hsucceeded, husers⟩ := hyes rfl
        have hcolon : ascii ':' ∉ tail := h.unfinished_eq ▸ hok
        exact ⟨_, [], h.complete (by simp [registered, hsucceeded])
          (newUser_wellFormed happends.1 password device) happends.2.2.2.2 husers rfl hcolon⟩
    · obtain ⟨error, u, hrefused, husers⟩ := registerUser_of_not_appends happends s.2 device outcome
      rw [hrefused, Prod.mk.injEq] at hcall
      obtain ⟨rfl, rfl⟩ := hcall
      exact ⟨lines, tail, h.unchanged rfl husers rfl⟩
  | login username password now device =>
    obtain ⟨sessions, rfl⟩ := call_login_frame hcall
    exact ⟨lines, tail, h.unchanged rfl rfl rfl⟩
  | authenticateBearerToken header now =>
    obtain ⟨sessions, rfl⟩ := call_authenticate_frame hcall
    exact ⟨lines, tail, h.unchanged rfl rfl rfl⟩

end Step

theorem torn_start (inviteCode : Bytes) (ttl limit : ℕ) :
    Torn [] [] (start inviteCode ttl limit true none) [] where
  file := rfl
  quiet := by simp
  wellFormed := by simp
  users := rfl
  nodup := List.nodup_nil
  taken := by simp [accounts]
  newline := by decide
  unread := parseRecord_nil
  faint := fun _ ↦ quiet_nil

theorem trim_ne_nil_of_mem {s : Bytes} {ch : Byte} (hmem : ch ∈ s) (hspace : isspace ch = false) :
    trim s ≠ [] := by
  intro htrim
  rw [trim, List.reverse_eq_nil_iff, List.dropWhile_eq_nil_iff] at htrim
  rw [← List.takeWhile_append_dropWhile (p := isspace) (l := s), List.mem_append] at hmem
  have hch : isspace ch = true := by
    obtain hmem | hmem := hmem
    · exact List.mem_takeWhile_imp hmem
    · exact htrim ch (List.mem_reverse.2 hmem)
  rw [hspace] at hch
  cases hch

theorem Line.trim_text_ne_nil (line : Line) : trim line.text ≠ [] := by
  have hmem : ascii '{' ∈ line.text := List.mem_append_right _ List.mem_cons_self
  exact trim_ne_nil_of_mem hmem (by decide)

theorem loadLines_append {lines : List Line} (hquiet : ∀ line ∈ lines, Quiet line.1)
    (hwf : ∀ line ∈ lines, WellFormed line.2) (rest : List Bytes) (users : Map Bytes StoredUser) :
    loadLines (lines.map Line.text ++ rest) users = loadLines rest ((lines.map Prod.snd).foldl
      (fun users user ↦ users.insert user.username (reloaded user)) users) := by
  induction lines generalizing users with
  | nil => rfl
  | cons line lines ih =>
    obtain ⟨hline, hquiet⟩ := List.forall_mem_cons.1 hquiet
    obtain ⟨huser, hwf⟩ := List.forall_mem_cons.1 hwf
    rw [List.map_cons, List.cons_append, loadLines, if_neg line.trim_text_ne_nil, Line.text,
      parseRecord_behind hline, parseRecord_members huser]
    exact ih hquiet hwf _

theorem Torn.reload_eq {lines : List Line} {tail : Bytes} {s : Stored} {log : History}
    (h : Torn lines tail s log) : reload s = (accounts log).foldl
      (fun users user ↦ users.insert user.username (reloaded user)) ∅ := by
  have hfile := h.file
  cases hf : s.2 with
  | none =>
    rw [hf, Option.getD_none] at hfile
    cases lines with
    | nil => rw [reload, hf, ← h.users]; rfl
    | cons line lines => simp [finished] at hfile
  | some contents =>
    rw [hf, Option.getD_some] at hfile
    rw [reload, start, hf, load, hfile]
    dsimp only [Bool.not_true]
    rw [if_neg (by decide), getlines_file h.newline_not_mem,
      loadLines_append h.quiet h.wellFormed, loadLines_tail h.newline h.unread, h.users]
    rfl

theorem Torn.undamaged {lines : List Line} {tail : Bytes} {s : Stored} {log : History}
    (h : Torn lines tail s log) : Undamaged s log := by
  obtain ⟨hin, hout⟩ := lookup_foldl_insert h.nodup ∅
  refine ⟨fun user huser hname ↦ ?_, fun name hname ↦ ?_⟩
  · have hlookup := hin user huser
    rw [← h.reload_eq] at hlookup
    obtain ⟨line, hline, rfl⟩ := List.mem_map.1 (h.users ▸ huser)
    have hwf := h.wellFormed line hline
    have hsalt : line.2.username ≠ lit "salt" := fun heq ↦ hname (heq ▸ by decide)
    have hhash : line.2.username ≠ lit "password_hash" := fun heq ↦ hname (heq ▸ by decide)
    rw [hlookup, (reloaded_eq_self_iff hwf).2 ⟨hsalt, hhash⟩]
  · by_contra hnotin
    rw [h.reload_eq, ← AList.mem_keys, ← AList.lookup_isSome, hout name hnotin] at hname
    cases hname

/-- As long as every append is harmless, a reload finds every registered account and no other. -/
theorem torn_records_harmless (inviteCode : Bytes) (ttl limit : ℕ) (calls : List Call)
    (hok : Along (logged call) (fun s c ↦ Harmless s.1 c)
      (start inviteCode ttl limit true none, []) calls) :
    ∃ s log, run (logged call) (start inviteCode ttl limit true none, []) calls = some (s, log) ∧
      Undamaged s log := by
  have hstep : ∀ (s : Stored × History) c, Harmless s.1 c →
      (∃ lines tail, Torn lines tail s.1 s.2) →
      ∃ t, logged call s c = some t ∧ ∃ lines tail, Torn lines tail t.1 t.2 := by
    intro s c hok h
    obtain ⟨lines, tail, h⟩ := h
    obtain ⟨result, t, hcall⟩ := call_possible s.1 c
    exact ⟨_, by rw [logged, hcall, Option.map_some], h.step hok hcall⟩
  obtain ⟨⟨s, log⟩, hrun, lines, tail, h⟩ :=
    possible hstep ⟨[], [], torn_start inviteCode ttl limit⟩ hok
  exact ⟨s, log, hrun, h.undamaged⟩

/-- Bob's record breaks off within its first field name, and Alice's is read all the same. -/
theorem alice_behind_torn_name :
    ∃ s log, run (logged call) (start [] 86400 5 true none, [])
      [.registerUser (lit "bob") (lit "password") [] (lit "127.0.0.1") 0 (fun _ ↦ 0) (.writeFails 7),
        .registerUser (lit "alice") (lit "password") [] (lit "127.0.0.1") 0 (fun _ ↦ 0) .written] =
      some (s, log) ∧ Undamaged s log := by
  have hlength (user : StoredUser) : 7 < (recordLine user).length := by
    simp [recordLine, lit]
  have htorn (user : StoredUser) : (recordLine user).take 7 = lit "\x7b\"usern" := rfl
  refine torn_records_harmless [] 86400 5 _ ⟨fun _ ↦ ⟨?_, ?_⟩, fun t ht ↦ ⟨fun _ ↦ ?_, ?_⟩⟩
  · exact hlength _
  · change parseRecord ([] ++ (recordLine _).take 7) = none
    rw [htorn]
    decide
  · have hfile : t.1.2 = some
        ((recordLine (newUser (lit "bob") (lit "password") fun _ ↦ 0)).take 7) := by
      cases ht
      rfl
    change ascii ':' ∉ unfinished [] (t.1.2.getD [])
    rw [hfile, htorn]
    decide
  · exact fun _ _ ↦ trivial

section TornBehindName

def tornBob : Bytes := lit "\x7b\"username\":\"bob\""

variable {user : StoredUser}

theorem extract_behind_bob (user : StoredUser) :
    extractJsonStringField (tornBob ++ encodeObject (members user)) (lit "username") =
      some (lit "bob") := by
  rw [extractJsonStringField_eq]
  change (afterFirst (quoted (lit "username")) (ascii '{' :: (quoted (lit "username") ++
    (lit ":\"bob\"" ++ encodeObject (members user))))).bind readAfter = _
  have hbrace : ¬ quoted (lit "username") <+: ascii '{' :: (quoted (lit "username") ++
      (lit ":\"bob\"" ++ encodeObject (members user))) :=
    fun hprefix ↦ absurd (List.cons_prefix_cons.1 hprefix).1 (by decide)
  rw [afterFirst_cons_of_not_starts hbrace, afterFirst_append, Option.bind_some]
  exact readAfter_quoted (x := []) (by decide) (lit "bob") _

theorem extract_other_behind_bob (user : StoredUser) : ∀ w ∈ fieldNames, w ≠ lit "username" →
    extractJsonStringField (tornBob ++ encodeObject (members user)) w =
      extractJsonStringField (encodeObject (members user)) w := by
  intro w hw hname
  have hshown : ¬ quoted w <:+: tornBob := by
    revert w
    decide
  rw [extractJsonStringField_eq, extractJsonStringField_eq]
  exact congrArg (Option.bind · readAfter)
    (afterFirst_append_of_absent hshown (brace_not_mem_quoted hw) _)

theorem parseRecord_behind_bob (h : WellFormed user) (hsalt : user.username ≠ lit "salt")
    (hhash : user.username ≠ lit "password_hash") :
    parseRecord (tornBob ++ encodeObject (members user)) =
      some { user with username := lit "bob" } := by
  have hother := extract_other_behind_bob user
  have hparse := parseRecord_members h
  rw [(reloaded_eq_self_iff h).2 ⟨hsalt, hhash⟩] at hparse
  simp only [parseRecord, Option.bind_eq_bind, Option.bind_eq_some_iff] at hparse ⊢
  obtain ⟨username, -, role, hrole, salt, hsalt, hash, hhash, heq⟩ := hparse
  obtain rfl := Option.some.inj heq
  refine ⟨_, extract_behind_bob _, role, (hother _ ?_ ?_).trans hrole, salt,
    (hother _ ?_ ?_).trans hsalt, hash, (hother _ ?_ ?_).trans hhash, rfl⟩
  all_goals decide

theorem reload_behind_bob (h : WellFormed user) (hsalt : user.username ≠ lit "salt")
    (hhash : user.username ≠ lit "password_hash") {s : Stored}
    (hfile : s.2 = some (tornBob ++ recordLine user)) :
    reload s = (∅ : Map Bytes StoredUser).insert (lit "bob") { user with username := lit "bob" } := by
  have hnewline : ascii '\n' ∉ tornBob ++ encodeObject (members user) := by
    rw [List.mem_append, not_or]
    exact ⟨by decide, newline_not_mem_record user⟩
  have hbrace : ascii '{' ∈ tornBob ++ encodeObject (members user) :=
    List.mem_append_left _ List.mem_cons_self
  rw [reload, start, hfile, recordLine_eq, ← List.append_assoc, load]
  dsimp only
  rw [if_neg (by decide), getlines_append hnewline, List.nil_append, getlines, if_pos rfl,
    loadLines, if_neg (trim_ne_nil_of_mem hbrace (by decide)), parseRecord_behind_bob h hsalt hhash]
  rfl

end TornBehindName

/-- Bob's record breaks off behind his name, and Alice's completes it: she is lost, and her
password opens his account. -/
theorem bob_takes_alices_record :
    ∃ s log, run (logged call) (start [] 86400 5 true none, [])
      [.registerUser (lit "bob") (lit "password") [] (lit "127.0.0.1") 0 (fun _ ↦ 0) (.writeFails 17),
        .registerUser (lit "alice") (lit "password") [] (lit "127.0.0.1") 0 (fun _ ↦ 0) .written] =
      some (s, log) ∧
    accounts log = [newUser (lit "alice") (lit "password") fun _ ↦ 0] ∧
    (reload s).lookup (lit "bob") =
      some { newUser (lit "alice") (lit "password") fun _ ↦ 0 with username := lit "bob" } ∧
    ¬ Undamaged s log := by
  have htorn : (recordLine (newUser (lit "bob") (lit "password") fun _ ↦ 0)).take 17 = tornBob := by
    decide
  have hreload (s : Stored) (hfile : s.2 = some (tornBob ++
      recordLine (newUser (lit "alice") (lit "password") fun _ ↦ 0))) := reload_behind_bob
    (newUser_wellFormed (by decide) (lit "password") fun _ ↦ 0) (by decide) (by decide) hfile
  refine ⟨_, _, rfl, rfl, ?_, fun h ↦ ?_⟩
  · rw [hreload _ (congrArg (fun x ↦ some (x ++ recordLine _)) htorn), AList.lookup_insert]
  · have hkept := h.kept _ (List.mem_singleton_self _) (by decide)
    rw [hreload _ (congrArg (fun x ↦ some (x ++ recordLine _)) htorn)] at hkept
    cases hkept

end CppAiService.TornRecords
