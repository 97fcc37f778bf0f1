import OverloadDocs.Proofs.ExactScores
import OverloadDocs.Proofs.Listing
import OverloadDocs.Store.Search

/-!
The relevance of what a text search finds, with exact scores. Functions come in the order of their raw scores, of
which lower is better and none is above zero; but the relevance falls with the distance of the raw score from
zero. So it rises from one result to the next, and a least relevance takes results away from the front of the
list.
-/

namespace OverloadDocs

/-! ## Relevance of a raw score -/

namespace Score

theorem relevance_exact (x : ℚ) : relevance x = 1 / (1 + |x| / 50) := by
  simp [relevance]

theorem relevance_pos (x : ℚ) : 0 < relevance x := by
  rw [relevance_exact]
  exact one_div_pos.mpr (add_pos_of_pos_of_nonneg one_pos (div_nonneg (abs_nonneg x) (by norm_num)))

theorem relevance_le_one (x : ℚ) : relevance x ≤ 1 := by
  rw [relevance_exact]
  refine (div_le_one (add_pos_of_pos_of_nonneg one_pos ?_)).mpr (le_add_of_nonneg_right ?_)
  all_goals exact div_nonneg (abs_nonneg x) (by norm_num)

/-- Of two raw scores the lower one, which is the better, has the lower relevance. -/
theorem relevance_lt_iff {x y : ℚ} (hx : x ≤ 0) (hy : y ≤ 0) : relevance x < relevance y ↔ x < y := by
  have hpos : ∀ z : ℚ, 0 < 1 + |z| / 50 := fun z =>
    add_pos_of_pos_of_nonneg one_pos (div_nonneg (abs_nonneg z) (by norm_num))
  rw [relevance_exact, relevance_exact, one_div_lt_one_div (hpos x) (hpos y), add_lt_add_iff_left,
    div_lt_div_iff_of_pos_right (by norm_num), abs_of_nonpos hx, abs_of_nonpos hy, neg_lt_neg_iff]

theorem relevance_le_iff {x y : ℚ} (hx : x ≤ 0) (hy : y ≤ 0) : relevance x ≤ relevance y ↔ x ≤ y := by
  rw [← not_lt, relevance_lt_iff hy hx, not_lt]

end Score

/-! ## The order of results -/

namespace Store

theorem scoredBefore_iff {a b : FunctionRow × ℚ} :
    scoredBefore a b ↔ ByKey (·.2) (fun e e' => declaredBefore e.1 e'.1) a b := by
  rw [scoredBefore, Score.lt_or_tie_iff]
  rfl

theorem scoredBefore_trans (a b c : FunctionRow × ℚ) (hab : scoredBefore a b) (hbc : scoredBefore b c) :
    scoredBefore a c :=
  scoredBefore_iff.mpr
    ((scoredBefore_iff.mp hab).trans (declaredBefore_trans a.1 b.1 c.1) (scoredBefore_iff.mp hbc))

theorem scoredBefore_total (a b : FunctionRow × ℚ) : scoredBefore a b || scoredBefore b a := by
  rw [Bool.or_eq_true, scoredBefore_iff, scoredBefore_iff]
  exact ByKey.total (Bool.or_eq_true_iff.mp (declaredBefore_total a.1 b.1))

theorem limited_sublist {β : Type} (limit : Int) (xs : List β) : (limited limit xs).Sublist xs := by
  unfold limited
  split
  · exact List.Sublist.refl xs
  · exact List.take_sublist _ xs

/-- The functions that a search answers with before it looks at their relevance, the best raw score first. -/
def ranked (s : Store) (raw : RawScores ℚ) (projectId : Int) (query : String) (limit : Int)
    (filter : Option (SearchFilter ℚ)) : List FunctionRow :=
  (limited limit (((s.found projectId query filter).map fun row => (row, raw.of row)).mergeSort
    scoredBefore)).map (·.1)

/-- What a search answers for a function. -/
def matchOf (raw : RawScores ℚ) (row : FunctionRow) : TextMatch ℚ := ⟨row.id, Score.relevance (raw.of row)⟩

section

variable (s : Store) (raw : RawScores ℚ) (projectId : Int) (query : String) (limit : Int)
  (filter : Option (SearchFilter ℚ))

theorem eq_of_mem_limited {e : FunctionRow × ℚ}
    (h : e ∈ limited limit (((s.found projectId query filter).map fun row => (row, raw.of row)).mergeSort
      scoredBefore)) : e = (e.1, raw.of e.1) := by
  obtain ⟨row, -, rfl⟩ := List.mem_map.mp (List.mem_mergeSort.mp ((limited_sublist limit _).subset h))
  rfl

theorem pairwise_ranked :
    (s.ranked raw projectId query limit filter).Pairwise fun row row' => raw.of row ≤ raw.of row' := by
  have hsorted := (List.pairwise_mergeSort scoredBefore_trans scoredBefore_total
    ((s.found projectId query filter).map fun row => (row, raw.of row))).sublist (limited_sublist limit _)
  refine List.pairwise_map.mpr (hsorted.imp_of_mem fun {e e'} he he' hbefore => ?_)
  have hle := (scoredBefore_iff.mp hbefore).le
  rwa [eq_of_mem_limited s raw projectId query limit filter he,
    eq_of_mem_limited s raw projectId query limit filter he'] at hle

theorem map_ranked_matchOf :
    (s.ranked raw projectId query limit filter).map (matchOf raw) =
      (limited limit (((s.found projectId query filter).map fun row => (row, raw.of row)).mergeSort
        scoredBefore)).map fun (row, score) => ⟨row.id, Score.relevance score⟩ := by
  rw [ranked, List.map_map]
  refine List.map_congr_left fun e he => ?_
  rw [eq_of_mem_limited s raw projectId query limit filter he]
  rfl

/-- Where a search does not fail, it answers with the best functions, but for those whose relevance does not
suffice. -/
theorem searchText_eq :
    s.searchText raw projectId query limit filter =
      if FullText.terms query = [] then .error .emptyQuery
      else if limit ≠ 0 ∧ FullText.endsEarly query then .error .unterminatedQuery
      else .ok (((s.ranked raw projectId query limit filter).map (matchOf raw)).filter fun m =>
        filter.all (·.keepsRelevance m.relevance)) := by
  rw [map_ranked_matchOf]
  rfl

theorem mem_found_of_mem_ranked {row : FunctionRow} (h : row ∈ s.ranked raw projectId query limit filter) :
    row ∈ s.found projectId query filter := by
  obtain ⟨e, he, rfl⟩ := List.mem_map.mp h
  obtain ⟨row, hrow, rfl⟩ := List.mem_map.mp (List.mem_mergeSort.mp ((limited_sublist limit _).subset he))
  exact hrow

/-- The best functions do not depend on the least relevance. -/
theorem ranked_withLeast (f : SearchFilter ℚ) (least : ℚ) :
    s.ranked raw projectId query limit (some { f with minRelevance := least }) =
      s.ranked raw projectId query limit (some f) :=
  rfl

end

end Store

/-! ## The least relevance -/

theorem filter_suffix_of_pairwise {β : Type} {p : β → Bool} {l : List β} (h : l.Pairwise fun a b => p a → p b) :
    l.filter p <:+ l := by
  induction l with
  | nil => exact List.suffix_rfl
  | cons a l ih =>
    obtain ⟨hhead, htail⟩ := List.pairwise_cons.mp h
    cases ha : p a with
    | true =>
      exact ⟨[], List.filter_eq_self.mpr (List.forall_mem_cons.mpr ⟨ha, fun b hb => hhead b hb ha⟩)⟩
    | false =>
      rw [List.filter_cons_of_neg (by simp [ha])]
      exact (ih htail).trans (List.suffix_cons a l)

namespace SearchFilter

theorem keepsRelevance_iff {f : SearchFilter ℚ} {x : ℚ} :
    f.keepsRelevance x ↔ f.minRelevance ≤ 0 ∨ f.minRelevance ≤ x := by
  simp [keepsRelevance, or_iff_not_imp_left]

/-- What is relevant enough is so where less is demanded, and so is what is more relevant. -/
theorem keepsRelevance_mono {f f' : SearchFilter ℚ} (hleast : f'.minRelevance ≤ f.minRelevance) {x y : ℚ}
    (hxy : x ≤ y) (h : f.keepsRelevance x) : f'.keepsRelevance y := by
  rw [keepsRelevance_iff] at h ⊢
  exact h.imp hleast.trans fun hx => (hleast.trans hx).trans hxy

/-- Of results in the order of their relevance a higher least relevance keeps an end of what a lower one keeps. -/
theorem filter_withLeast_suffix {f : SearchFilter ℚ} {least : ℚ} (hleast : f.minRelevance ≤ least)
    {results : List (TextMatch ℚ)} (h : results.Pairwise fun m m' => m.relevance ≤ m'.relevance) :
    (results.filter fun m => keepsRelevance { f with minRelevance := least } m.relevance) <:+
      results.filter fun m => f.keepsRelevance m.relevance := by
  -- What the higher one keeps is kept by the lower one too, so the one filter is the other after it.
  have hagain : ∀ m ∈ results, keepsRelevance { f with minRelevance := least } m.relevance =
      (keepsRelevance { f with minRelevance := least } m.relevance && f.keepsRelevance m.relevance) := by
    intro m _
    rw [Bool.eq_iff_iff, Bool.and_eq_true]
    exact ⟨fun hm => ⟨hm, keepsRelevance_mono hleast le_rfl hm⟩, And.left⟩
  rw [List.filter_congr hagain, ← List.filter_filter]
  exact filter_suffix_of_pairwise ((h.filter _).imp fun hle => keepsRelevance_mono le_rfl hle)

end SearchFilter

namespace Store

variable {s : Store} {raw : RawScores ℚ} {projectId : Int} {query : String} {limit : Int}
  {filter : Option (SearchFilter ℚ)}

/-- What is found in the order of raw scores is found in the order of relevance, the least relevant first. -/
theorem pairwise_relevance_ranked (limit : Int)
    (hraw : ∀ row ∈ s.found projectId query filter, raw.of row ≤ 0) :
    (s.ranked raw projectId query limit filter).Pairwise fun row row' =>
      raw.of row ≤ raw.of row' ∧ (matchOf raw row).relevance ≤ (matchOf raw row').relevance ∧
        (raw.of row < raw.of row' → (matchOf raw row).relevance < (matchOf raw row').relevance) := by
  refine (pairwise_ranked s raw projectId query limit filter).imp_of_mem fun {row row'} hrow hrow' hle => ?_
  have hrow := hraw row (mem_found_of_mem_ranked s raw projectId query limit filter hrow)
  have hrow' := hraw row' (mem_found_of_mem_ranked s raw projectId query limit filter hrow')
  exact ⟨hle, (Score.relevance_le_iff hrow hrow').mpr hle, (Score.relevance_lt_iff hrow hrow').mpr⟩

/-- The results of a search show functions in the order of their raw scores, the best first. Their relevance is
above zero and at most one; it never falls from one result to the next, and rises where the raw score gets
worse. -/
structure Rises (raw : RawScores ℚ) (found : List FunctionRow) (results : List (TextMatch ℚ)) : Prop where
  rises : results.Pairwise fun m m' => m.relevance ≤ m'.relevance
  bounded : ∀ m ∈ results, 0 < m.relevance ∧ m.relevance ≤ 1
  rows : ∃ rows : List FunctionRow, results = rows.map (matchOf raw) ∧ rows ⊆ found ∧
    rows.Pairwise fun row row' => raw.of row ≤ raw.of row' ∧
      (raw.of row < raw.of row' → (matchOf raw row).relevance < (matchOf raw row').relevance)

theorem rises_filter_ranked (hraw : ∀ row ∈ s.found projectId query filter, raw.of row ≤ 0) :
    Rises raw (s.found projectId query filter)
      (((s.ranked raw projectId query limit filter).map (matchOf raw)).filter fun m =>
        filter.all (·.keepsRelevance m.relevance)) := by
  rw [List.filter_map]
  have hkept := (pairwise_relevance_ranked limit hraw).filter
    ((fun m => filter.all (·.keepsRelevance m.relevance)) ∘ matchOf raw)
  refine ⟨List.pairwise_map.mpr (hkept.imp fun h => h.2.1), fun m hm => ?_, _, rfl, fun row hrow => ?_,
    hkept.imp fun h => ⟨h.1, h.2.2⟩⟩
  · obtain ⟨row, -, rfl⟩ := List.mem_map.mp hm
    exact ⟨Score.relevance_pos _, Score.relevance_le_one _⟩
  · exact mem_found_of_mem_ranked s raw projectId query limit filter (List.mem_of_mem_filter hrow)

/-- When no raw score is above zero, the relevance of results rises, as better raw scores are less relevant. A
higher least relevance changes nothing about failing, and takes results away from the front of the list only. -/
theorem relevance_searchText (hraw : ∀ row ∈ s.found projectId query filter, raw.of row ≤ 0) :
    (∀ results, s.searchText raw projectId query limit filter = .ok results →
      Rises raw (s.found projectId query filter) results) ∧
    ∀ f ∈ filter, ∀ least, f.minRelevance ≤ least →
      (∀ e, s.searchText raw projectId query limit filter = .error e →
        s.searchText raw projectId query limit (some { f with minRelevance := least }) = .error e) ∧
      ∀ results, s.searchText raw projectId query limit filter = .ok results →
        ∃ kept, s.searchText raw projectId query limit (some { f with minRelevance := least }) = .ok kept ∧
          kept <:+ results := by
  simp only [searchText_eq]
  by_cases hterms : FullText.terms query = []
  · simp [hterms]
  by_cases hends : limit ≠ 0 ∧ FullText.endsEarly query
  · simp [hterms, hends]
  rw [if_neg hterms, if_neg hends]
  refine ⟨fun results hresults => ?_, fun f hf least hleast => ⟨fun e he => ?_, fun results hresults => ?_⟩⟩
  · obtain rfl := Except.ok.inj hresults
    exact rises_filter_ranked hraw
  · cases he
  · obtain rfl := Except.ok.inj hresults
    obtain rfl : filter = some f := hf
    rw [if_neg hterms, if_neg hends, ranked_withLeast]
    have hrises := (pairwise_relevance_ranked limit hraw).imp fun h => h.2.1
    exact ⟨_, rfl, SearchFilter.filter_withLeast_suffix hleast (List.pairwise_map.mpr hrises)⟩

/-! ## A word in a name and in a summary -/

/-- A function whose name is the word. -/
def namedRow : FunctionRow :=
  { id := 1, fileId := 1, name := "norm", signature := "real norm(real x)", key := "norm(real)"
    filePath := "a.stan" }

/-- A function whose summary has the word in it. -/
def mentioningRow : FunctionRow :=
  { id := 2, fileId := 1, name := "f", signature := "real f(real x)", key := "f(real)", order := 1
    summary := "The norm of a row.", filePath := "a.stan" }

def ofSharedWord : Store where
  projects := [{ id := 1, root := "/" }]
  files := [{ id := 1, projectId := 1, path := "a.stan", hash := default }]
  functions := [namedRow, mentioningRow]
  lastProject := 1
  lastFile := 1
  lastFunction := 2

/-- Raw scores by which the word in a name is the better match. -/
def nameScores : RawScores ℚ := ⟨fun row => if row.name = "norm" then -50 else 0⟩

theorem searchText_ofSharedWord (least : ℚ) :
    ofSharedWord.searchText nameScores 1 "norm" 10 (some { minRelevance := least }) =
      .ok ([⟨1, 1 / 2⟩, ⟨2, 1⟩].filter fun m =>
        SearchFilter.keepsRelevance { minRelevance := least } m.relevance) := by
  have hfound : ofSharedWord.found 1 "norm" (some { minRelevance := least }) = [namedRow, mentioningRow] := by
    change ofSharedWord.found 1 "norm" (some ({ minRelevance := 0 } : SearchFilter ℚ)) = _
    decide +kernel
  have hsorted : [(namedRow, nameScores.of namedRow), (mentioningRow, nameScores.of mentioningRow)].Pairwise
      (scoredBefore · ·) := by
    decide +kernel
  have hranked : ofSharedWord.ranked nameScores 1 "norm" 10 (some { minRelevance := least }) =
      [namedRow, mentioningRow] := by
    rw [ranked, hfound]
    exact congrArg (fun l => (limited 10 l).map (·.1)) (List.mergeSort_of_pairwise hsorted)
  have hmatches : [namedRow, mentioningRow].map (matchOf nameScores) = [⟨1, 1 / 2⟩, ⟨2, 1⟩] := by
    have hnamed : Score.relevance (nameScores.of namedRow) = 1 / 2 := by decide +kernel
    have hmentioning : Score.relevance (nameScores.of mentioningRow) = 1 := by decide +kernel
    rw [List.map_cons, List.map_cons, matchOf, matchOf, hnamed, hmentioning]
    rfl
  have hterms : FullText.terms "norm" ≠ [] := by decide +kernel
  have hends : ¬ ((10 : Int) ≠ 0 ∧ FullText.endsEarly "norm") := by decide +kernel
  rw [searchText_eq, if_neg hterms, if_neg hends, hranked, hmatches]
  rfl

/-- The better match is the less relevant of the two, and is the one that a least relevance takes away. -/
theorem relevance_of_better_match :
    (∀ row ∈ ofSharedWord.functions, nameScores.of row ≤ 0) ∧
    nameScores.of namedRow < nameScores.of mentioningRow ∧
    ofSharedWord.searchText nameScores 1 "norm" 10 (some { minRelevance := 0 }) =
      .ok [⟨1, 1 / 2⟩, ⟨2, 1⟩] ∧
    ¬ ([⟨1, 1 / 2⟩, ⟨2, 1⟩] : List (TextMatch ℚ)).Pairwise (fun m m' => m'.relevance ≤ m.relevance) ∧
    ofSharedWord.searchText nameScores 1 "norm" 10 (some { minRelevance := 3 / 4 }) = .ok [⟨2, 1⟩] ∧
    ¬ ([⟨2, 1⟩] : List (TextMatch ℚ)) <+: [⟨1, 1 / 2⟩, ⟨2, 1⟩] := by
  refine ⟨by decide +kernel, by decide +kernel, ?_, ?_, ?_, ?_⟩
  · rw [searchText_ofSharedWord]
    rfl
  · intro hfalls
    have hle : (1 : ℚ) ≤ 1 / 2 := (List.pairwise_cons.mp hfalls).1 _ List.mem_cons_self
    exact absurd hle (by decide +kernel)
  · rw [searchText_ofSharedWord, List.filter_cons_of_neg (by decide +kernel),
      List.filter_cons_of_pos (by decide +kernel)]
    rfl
  · simp

/-- The same search, and the same with a least relevance. -/
theorem relevance_of_shared_word :
    let filter : SearchFilter ℚ := { minRelevance := 0 }
    (∀ row ∈ ofSharedWord.found 1 "norm" (some filter), nameScores.of row ≤ 0) ∧
    filter.minRelevance ≤ 3 / 4 ∧
    Rises nameScores (ofSharedWord.found 1 "norm" (some filter)) [⟨1, 1 / 2⟩, ⟨2, 1⟩] ∧
    ∃ kept, ofSharedWord.searchText nameScores 1 "norm" 10 (some { filter with minRelevance := 3 / 4 }) =
      .ok kept ∧ kept <:+ [⟨1, 1 / 2⟩, ⟨2, 1⟩] := by
  intro filter
  have hraw : ∀ row ∈ ofSharedWord.found 1 "norm" (some filter), nameScores.of row ≤ 0 := by decide +kernel
  have hleast : filter.minRelevance ≤ 3 / 4 := by decide +kernel
  obtain ⟨hrises, hraised⟩ :=
    @relevance_searchText ofSharedWord nameScores 1 "norm" 10 (some filter) hraw
  have hresults : ofSharedWord.searchText nameScores 1 "norm" 10 (some filter) = .ok [⟨1, 1 / 2⟩, ⟨2, 1⟩] :=
    searchText_ofSharedWord 0
  exact ⟨hraw, hleast, hrises _ hresults, (hraised filter rfl _ hleast).2 _ hresults⟩

end Store

end OverloadDocs
