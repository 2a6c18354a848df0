import CppAiService.Foundation.Log
import CppAiService.Foundation.Tokens
import CppAiService.Foundation.TopK
import CppAiService.RagStore

namespace CppAiService.Retrieval

open Bytes RagStore InMemoryRagStore Foundation.Tokens Foundation.TopK

def stored (history : List RagDocument) : InMemoryRagStore := history.foldl upsert ⟨[]⟩

def Latest (history : List RagDocument) (document : RagDocument) : Prop :=
  ∃ before after, history = before ++ document :: after ∧ ∀ later ∈ after, later.id ≠ document.id

def IsToken (token text : Bytes) : Prop :=
  ∃ run, IsRun (isalnum · = true) run text ∧ token = run.map tolower

def Shares (query : Bytes) (document : RagDocument) : Prop :=
  ∃ token, IsToken token query ∧ (IsToken token document.title ∨ IsToken token document.content)

structure ExactTopK (history : List RagDocument) (query : Bytes) (limit : ℕ)
    (results : List RagSearchResult) : Prop where
  length_le : results.length ≤ limit
  distinct : (results.map (·.document.id)).Nodup
  sorted : results.Pairwise fun left right ↦ right.score ≤ left.score
  sound : ∀ result ∈ results, Latest history result.document ∧ Shares query result.document ∧
    result.score = score query result.document
  best : ∀ document, Latest history document → Shares query document →
    document ∉ results.map (·.document) →
    (∀ result ∈ results, score query document ≤ result.score) ∧ ¬ results.length < limit

theorem isalnum_tolower (ch : Byte) : isalnum (tolower ch) = isalnum ch :=
  forall_byte (p := fun ch ↦ isalnum (tolower ch) = isalnum ch) (by decide +kernel) ch

theorem mem_tokenizeFrom {current : Bytes} (hcurrent : ∀ ch ∈ current, isalnum ch = true)
    (token text : Bytes) : token ∈ tokenizeFrom current text ↔
      IsRun (isalnum · = true) token (current ++ text) := by
  induction text generalizing current with
  | nil =>
    rw [List.append_nil, isRun_of_letters hcurrent, tokenizeFrom]
    split_ifs with hnil
    · simp [hnil]
    · simp [hnil]
  | cons ch text ih =>
    rw [tokenizeFrom]
    split_ifs with hch hnil
    · have hmore : ∀ a ∈ current ++ [ch], isalnum a = true := by
        intro a ha
        obtain ha | ha := List.mem_append.1 ha
        · exact hcurrent a ha
        · rwa [List.mem_singleton.1 ha]
      rw [ih hmore, List.append_assoc, List.singleton_append]
    · rw [isRun_append_cons (p := (isalnum · = true)) hch, ih (by simp),
        isRun_of_letters hcurrent, List.nil_append]
      simp [hnil]
    · rw [isRun_append_cons (p := (isalnum · = true)) hch, List.mem_cons, ih (by simp),
        isRun_of_letters hcurrent, List.nil_append]
      simp [hnil]

theorem mem_tokenize {token text : Bytes} : token ∈ tokenize text ↔ IsToken token text := by
  have hlower : ∀ ch, isalnum (tolower ch) = true ↔ isalnum ch = true := by
    simp [isalnum_tolower]
  rw [tokenize, mem_tokenizeFrom (by simp), List.nil_append, lowerCopy, isRun_map hlower]
  rfl

theorem isToken_haystack {token : Bytes} (title content : Bytes) :
    IsToken token (title ++ lit " " ++ content) ↔ IsToken token title ∨ IsToken token content := by
  have hspace : ¬ isalnum (ascii ' ') = true := by decide
  have hlit : lit " " = [ascii ' '] := rfl
  simp only [IsToken, hlit, List.append_assoc, List.singleton_append,
    isRun_append_cons (p := (isalnum · = true)) hspace, or_and_right, exists_or]

theorem dotProduct_embed_pos {left right : Bytes}
    (h : 0 < RagStore.dotProduct (embed left) (embed right)) :
    ∃ word, word ∈ tokenize left ∧ word ∈ tokenize right := by
  rw [RagStore.dotProduct, embed, embed, List.zipWith_map, List.zipWith_self,
    List.sum_pos_iff_exists_pos_nat] at h
  obtain ⟨n, hn, hpos⟩ := h
  obtain ⟨word, -, rfl⟩ := List.mem_map.1 hn
  have hleft := Nat.pos_of_ne_zero (left_ne_zero_of_mul hpos.ne')
  have hright := Nat.pos_of_ne_zero (right_ne_zero_of_mul hpos.ne')
  exact ⟨word, List.count_pos_iff.1 hleft, List.count_pos_iff.1 hright⟩

theorem score_pos_iff (query : Bytes) (document : RagDocument) :
    0 < score query document ↔ Shares query document := by
  have hshares : Shares query document ↔ ∃ token, token ∈ tokenize query ∧
      token ∈ tokenize (document.title ++ lit " " ++ document.content) := by
    simp only [Shares, mem_tokenize, isToken_haystack]
  rw [hshares, score]
  constructor
  · intro h
    obtain h | h := Nat.add_pos_iff_pos_or_pos.1 h
    · exact dotProduct_embed_pos h
    · obtain ⟨token, hhay, hquery⟩ := List.countP_pos_iff.1 h
      exact ⟨token, of_decide_eq_true hquery, hhay⟩
  · rintro ⟨token, hquery, hhay⟩
    exact Nat.add_pos_right _ (List.countP_pos_iff.2 ⟨token, hhay, decide_eq_true hquery⟩)

theorem latest_append {history : List RagDocument} {new document : RagDocument} :
    Latest (history ++ [new]) document ↔
      document = new ∨ (Latest history document ∧ document.id ≠ new.id) := by
  constructor
  · rintro ⟨before, after, he, hlater⟩
    obtain rfl | ⟨after, last, rfl⟩ := after.eq_nil_or_concat
    · exact .inl (List.singleton_inj.1 (List.append_inj_right' he rfl)).symm
    · rw [List.concat_eq_append, ← List.cons_append, ← List.append_assoc] at he
      obtain ⟨rfl, hlast⟩ := List.append_inj' he rfl
      obtain rfl := List.singleton_inj.1 hlast
      refine .inr ⟨⟨before, after, rfl, fun later h ↦ hlater later (by simp [h])⟩, ?_⟩
      exact (hlater new (by simp)).symm
  · rintro (rfl | ⟨⟨before, after, rfl, hlater⟩, hne⟩)
    · exact ⟨history, [], rfl, by simp⟩
    · refine ⟨before, after ++ [new], by simp, ?_⟩
      intro later h
      obtain h | h := List.mem_append.1 h
      · exact hlater later h
      · rw [List.mem_singleton.1 h]
        exact hne.symm

theorem mem_upsertInto {documents : List RagDocument} (hnodup : (documents.map (·.id)).Nodup)
    (new document : RagDocument) : document ∈ upsertInto new documents ↔
      document = new ∨ (document ∈ documents ∧ document.id ≠ new.id) := by
  induction documents with
  | nil => simp [upsertInto]
  | cons existing documents ih =>
    rw [List.map_cons, List.nodup_cons] at hnodup
    rw [upsertInto]
    split_ifs with hid
    · have hother : ∀ d ∈ documents, d.id ≠ new.id := by
        rintro d hd he
        exact hnodup.1 (List.mem_map.2 ⟨d, hd, he.trans hid.symm⟩)
      simp only [List.mem_cons]
      constructor
      · rintro (rfl | h)
        · exact .inl rfl
        · exact .inr ⟨.inr h, hother document h⟩
      · rintro (rfl | ⟨rfl | h, hne⟩)
        · exact .inl rfl
        · exact absurd hid hne
        · exact .inr h
    · rw [List.mem_cons, List.mem_cons, ih hnodup.2]
      constructor
      · rintro (rfl | rfl | ⟨h, hne⟩)
        · exact .inr ⟨.inl rfl, hid⟩
        · exact .inl rfl
        · exact .inr ⟨.inr h, hne⟩
      · rintro (rfl | ⟨rfl | h, hne⟩)
        · exact .inr (.inl rfl)
        · exact .inl rfl
        · exact .inr (.inr ⟨h, hne⟩)

theorem nodup_upsertInto {documents : List RagDocument} (hnodup : (documents.map (·.id)).Nodup)
    (new : RagDocument) : ((upsertInto new documents).map (·.id)).Nodup := by
  induction documents with
  | nil => simp [upsertInto]
  | cons existing documents ih =>
    have hall := hnodup
    rw [List.map_cons, List.nodup_cons] at hnodup
    rw [upsertInto]
    split_ifs with hid
    · rwa [List.map_cons, ← hid]
    · rw [List.map_cons, List.nodup_cons]
      refine ⟨?_, ih hnodup.2⟩
      intro hmem
      obtain ⟨d, hd, he⟩ := List.mem_map.1 hmem
      obtain rfl | ⟨hd, -⟩ := (mem_upsertInto hnodup.2 new d).1 hd
      · exact hid he.symm
      · exact hnodup.1 (List.mem_map.2 ⟨d, hd, he⟩)

/-- The store holds one document for each id ever given, the latest. -/
theorem stored_documents (history : List RagDocument) :
    ((stored history).documents_.map (·.id)).Nodup ∧
      ∀ document, document ∈ (stored history).documents_ ↔ Latest history document := by
  induction history using List.reverseRecOn with
  | nil => simp [stored, Latest]
  | append_singleton history new ih =>
    obtain ⟨hnodup, hlatest⟩ := ih
    have hstored : stored (history ++ [new]) = (stored history).upsert new := by
      simp [stored]
    rw [hstored]
    refine ⟨nodup_upsertInto hnodup new, fun document ↦ ?_⟩
    rw [upsert, mem_upsertInto hnodup, hlatest, latest_append]

def matched (query : Bytes) (document : RagDocument) : Option RagSearchResult :=
  if 0 < score query document then some ⟨document, score query document⟩ else none

theorem matched_eq_some {query : Bytes} {document : RagDocument} {result : RagSearchResult} :
    matched query document = some result ↔ result = ⟨document, score query document⟩ ∧
      Shares query document := by
  rw [matched, ← score_pos_iff]
  split_ifs with h
  · simp [h, eq_comm]
  · simp [h]

theorem mem_candidates {history : List RagDocument} {query : Bytes} {result : RagSearchResult} :
    result ∈ (stored history).documents_.filterMap (matched query) ↔
      Latest history result.document ∧ Shares query result.document ∧
        result.score = score query result.document := by
  rw [List.mem_filterMap]
  constructor
  · rintro ⟨document, hmem, hmatched⟩
    obtain ⟨rfl, hshares⟩ := matched_eq_some.1 hmatched
    exact ⟨((stored_documents history).2 document).1 hmem, hshares, rfl⟩
  · rintro ⟨hlatest, hshares, hscore⟩
    refine ⟨result.document, ((stored_documents history).2 _).2 hlatest, ?_⟩
    rw [matched_eq_some, ← hscore]
    exact ⟨rfl, hshares⟩

theorem nodup_candidates (history : List RagDocument) (query : Bytes) :
    (((stored history).documents_.filterMap (matched query)).map (·.document.id)).Nodup := by
  have hsub : ∀ documents : List RagDocument,
      ((documents.filterMap (matched query)).map (·.document.id)).Sublist
        (documents.map (·.id)) := by
    intro documents
    induction documents with
    | nil => exact .slnil
    | cons document documents ih =>
      rw [List.filterMap_cons, List.map_cons]
      cases hmatched : matched query document with
      | none => exact ih.cons _
      | some result =>
        obtain ⟨rfl, -⟩ := matched_eq_some.1 hmatched
        exact ih.cons_cons _
  exact (stored_documents history).1.sublist (hsub _)

theorem exactTopK_search (history : List RagDocument) (sort : SortOrder) (query : Bytes)
    (limit : ℕ) : ExactTopK history query limit ((stored history).search sort query limit) where
  length_le := List.length_take_le _ _
  distinct := by
    have hperm := (sort.perm ((stored history).documents_.filterMap (matched query))).map
      fun result ↦ result.document.id
    exact ((hperm.nodup_iff).2 (nodup_candidates history query)).sublist
      ((List.take_sublist _ _).map _)
  sorted := (sort.sorted _).sublist (List.take_sublist _ _)
  sound := by
    intro result hresult
    exact mem_candidates.1 ((sort.perm _).mem_iff.1 (List.mem_of_mem_take hresult))
  best := by
    intro document hlatest hshares hout
    have hcandidate : (⟨document, score query document⟩ : RagSearchResult) ∈
        (stored history).documents_.filterMap (matched query) :=
      mem_candidates.2 ⟨hlatest, hshares, rfl⟩
    have hleft : (⟨document, score query document⟩ : RagSearchResult) ∉
        (stored history).search sort query limit := fun hmem ↦ hout (List.mem_map_of_mem hmem)
    obtain ⟨hbest, hfull⟩ := left_out (sort.sorted _) (sort.perm _) hcandidate hleft
    exact ⟨hbest, by rw [search]; exact hfull.not_lt⟩

/-- Every search returns the best documents of the store, whatever `std::sort` does with
results of equal score. -/
theorem search_exact_top_k (history : List RagDocument) (sort : SortOrder) (query : Bytes)
    (limit : ℕ) : (∀ document, 0 < score query document ↔ Shares query document) ∧
      ExactTopK history query limit ((stored history).search sort query limit) :=
  ⟨score_pos_iff query, exactTopK_search history sort query limit⟩

end CppAiService.Retrieval
