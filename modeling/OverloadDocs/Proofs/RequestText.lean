import Mathlib
import OverloadDocs.Search.Run

/-!
The texts under which answers are remembered. A text joins the query, the mode, the project, the limit and
what the filter says with bars, and the names of a filter with commas. Where no part holds the character that
ends it, the text can be cut from its end back into its parts, and two requests of one text differ at most in
what the text leaves out: the constant of the fusion and the further decimals of the least relevance.
-/

namespace OverloadDocs

namespace Text

/-! ## Cutting at separators -/

/-- A text has one last piece that is free of a separator. -/
theorem cut_unique {sep : Char} {xs ys p q : List Char} (h : xs ++ sep :: p = ys ++ sep :: q)
    (hp : sep ∉ p) (hq : sep ∉ q) : xs = ys ∧ p = q := by
  rcases List.append_eq_append_iff.mp h with ⟨zs, rfl, hrest⟩ | ⟨zs, rfl, hrest⟩
  · cases zs with
    | nil => exact ⟨(List.append_nil xs).symm, (List.cons.inj hrest).2⟩
    | cons z zs =>
        -- The separator in front of `q` would stand inside `p`.
        have hmem : sep ∈ p := by
          rw [(List.cons.inj hrest).2]
          exact List.mem_append_right zs List.mem_cons_self
        exact absurd hmem hp
  · cases zs with
    | nil => exact ⟨List.append_nil ys, (List.cons.inj hrest).2.symm⟩
    | cons z zs =>
        have hmem : sep ∈ q := by
          rw [(List.cons.inj hrest).2]
          exact List.mem_append_right zs List.mem_cons_self
        exact absurd hmem hq

/-- A text behind which pieces are put has the last of them for its last piece. -/
theorem last_piece_unique {sep : Char} {xs ys p q : List Char} {ps qs : List (List Char)}
    (h : xs ++ (ps ++ [p]).flatMap (sep :: ·) = ys ++ (qs ++ [q]).flatMap (sep :: ·))
    (hp : sep ∉ p) (hq : sep ∉ q) :
    xs ++ ps.flatMap (sep :: ·) = ys ++ qs.flatMap (sep :: ·) ∧ p = q := by
  simp only [List.flatMap_append, List.flatMap_singleton, ← List.append_assoc] at h
  exact cut_unique h hp hq

/-- A text is cut from its end into a number of pieces in one way. -/
theorem pieces_unique {sep : Char} {xs ys : List Char} {ps qs : List (List Char)}
    (hlength : ps.length = qs.length)
    (h : xs ++ ps.flatMap (sep :: ·) = ys ++ qs.flatMap (sep :: ·))
    (hps : ∀ p ∈ ps, sep ∉ p) (hqs : ∀ q ∈ qs, sep ∉ q) : xs = ys ∧ ps = qs := by
  induction ps using List.reverseRecOn generalizing qs with
  | nil =>
      obtain rfl := List.length_eq_zero_iff.mp hlength.symm
      exact ⟨List.append_cancel_right h, rfl⟩
  | append_singleton ps p ih =>
      rcases List.eq_nil_or_concat' qs with rfl | ⟨qs, q, rfl⟩
      · rw [List.length_append, List.length_singleton, List.length_nil] at hlength
        omega
      · obtain ⟨hps', hp⟩ := List.forall_mem_append.mp hps
        obtain ⟨hqs', hq⟩ := List.forall_mem_append.mp hqs
        obtain ⟨hinit, rfl⟩ := last_piece_unique h (hp p List.mem_cons_self) (hq q List.mem_cons_self)
        rw [List.length_append, List.length_append, Nat.add_right_cancel_iff] at hlength
        obtain ⟨rfl, rfl⟩ := ih hlength hinit hps' hqs'
        exact ⟨rfl, rfl⟩

theorem count_pieces {sep : Char} (xs : List Char) (ps : List (List Char)) :
    (xs ++ ps.flatMap (sep :: ·)).count sep = xs.count sep + ps.length + ps.flatten.count sep := by
  induction ps generalizing xs with
  | nil => simp
  | cons p ps ih =>
      rw [List.flatMap_cons, ← List.append_assoc, ih, List.count_append, List.count_cons_self, List.flatten_cons,
        List.count_append, List.length_cons]
      omega

/-- Pieces that are free of a separator leave none over for as many other pieces of the same text. -/
theorem free_of_pieces_eq {sep : Char} {xs ys : List Char} {ps qs : List (List Char)}
    (hlength : ps.length = qs.length) (h : xs ++ ps.flatMap (sep :: ·) = ys ++ qs.flatMap (sep :: ·))
    (hxs : sep ∉ xs) (hps : ∀ p ∈ ps, sep ∉ p) : ∀ q ∈ qs, sep ∉ q := by
  have hcount := congrArg (List.count sep) h
  have hflatten : sep ∉ ps.flatten := by
    rintro hmem
    obtain ⟨p, hp, hsep⟩ := List.mem_flatten.mp hmem
    exact hps p hp hsep
  rw [count_pieces, count_pieces, List.count_eq_zero_of_not_mem hxs, List.count_eq_zero_of_not_mem hflatten] at hcount
  have hrest : qs.flatten.count sep = 0 := by omega
  exact fun q hq hsep => List.count_eq_zero.mp hrest (List.mem_flatten_of_mem hq hsep)

/-- What joins words holds nothing but the separator and what is in the words. -/
theorem notMem_intercalate {c sep : Char} (hsep : c ≠ sep) {ws : List (List Char)}
    (hws : ∀ w ∈ ws, c ∉ w) : c ∉ [sep].intercalate ws := by
  induction ws with
  | nil => exact List.not_mem_nil
  | cons w ws ih =>
      obtain ⟨hw, hrest⟩ := List.forall_mem_cons.mp hws
      cases ws with
      | nil => rwa [List.intercalate_singleton]
      | cons w' ws =>
          rw [List.intercalate_cons_cons, List.append_assoc, List.mem_append, List.mem_append, not_or, not_or]
          exact ⟨hw, fun h => hsep (List.mem_singleton.mp h), ih hrest⟩

/-- Only no words are joined to nothing, unless one is empty. -/
theorem intercalate_ne_nil {sep : List Char} {w : List Char} (hw : w ≠ []) (ws : List (List Char)) :
    sep.intercalate (w :: ws) ≠ [] := by
  cases ws with
  | nil => rwa [List.intercalate_singleton]
  | cons w' ws =>
      rw [List.intercalate_cons_cons, List.append_assoc]
      exact fun h => hw (List.append_eq_nil_iff.mp h).1

/-- Words that are not empty and free of a separator are given back by what joins them. -/
theorem intercalate_injective {sep : Char} {ps qs : List (List Char)}
    (hps : ∀ p ∈ ps, p ≠ [] ∧ sep ∉ p) (hqs : ∀ q ∈ qs, q ≠ [] ∧ sep ∉ q)
    (h : [sep].intercalate ps = [sep].intercalate qs) : ps = qs := by
  cases ps with
  | nil =>
      cases qs with
      | nil => rfl
      | cons q qs => exact absurd h.symm (intercalate_ne_nil (hqs q List.mem_cons_self).1 qs)
  | cons p ps =>
      cases qs with
      | nil => exact absurd h (intercalate_ne_nil (hps p List.mem_cons_self).1 ps)
      | cons q qs =>
          rw [← List.splitOn_intercalate sep (fun p hp => (hps p hp).2) (List.cons_ne_nil p ps), h,
            List.splitOn_intercalate sep (fun q hq => (hqs q hq).2) (List.cons_ne_nil q qs)]

/-! ## Numbers -/

theorem isDigit_of_mem_repr {n : Nat} {c : Char} (h : c ∈ (toString n).toList) : c.isDigit = true := by
  rw [Nat.toString_eq_repr, Nat.toList_repr] at h
  exact Nat.isDigit_of_mem_toDigits (by decide) (by decide) h

theorem bar_notMem_toString_int (i : Int) : '|' ∉ (toString i).toList := by
  have hnat : ∀ n : Nat, '|' ∉ (toString n).toList := fun n h => by
    have hdigit := isDigit_of_mem_repr h
    revert hdigit
    decide
  cases i with
  | ofNat n => exact hnat n
  | negSucc n =>
      change '|' ∉ ("-" ++ toString n.succ).toList
      rw [String.toList_append, List.mem_append, not_or]
      exact ⟨by decide, hnat n.succ⟩

theorem bar_notMem_fixedDigits (places units : Nat) : '|' ∉ (fixedDigits places units).toList := by
  have hdigits : '|' ∉ List.replicate (places + 1 - (Nat.toDigits 10 units).length) '0' ++
      Nat.toDigits 10 units := by
    intro h
    rcases List.mem_append.mp h with h | h
    · exact absurd (List.eq_of_mem_replicate h) (by decide)
    · have hdigit := Nat.isDigit_of_mem_toDigits (by decide) (by decide) h
      revert hdigit
      decide
  unfold fixedDigits
  dsimp only
  split
  · rw [String.toList_ofList]
    exact fun h => hdigits (List.mem_of_mem_take h)
  · rw [String.toList_ofList, List.mem_append, List.mem_cons]
    rintro (h | h | h)
    · exact hdigits (List.mem_of_mem_take h)
    · exact absurd h (by decide)
    · exact hdigits (List.mem_of_mem_drop h)

theorem bar_notMem_fixed (places : Nat) (x : Float) : '|' ∉ (fixed places x).toList := by
  unfold fixed
  dsimp only
  split
  · split
    · split <;> decide
    · decide
  · rw [String.toList_append, List.mem_append, not_or]
    refine ⟨?_, bar_notMem_fixedDigits _ _⟩
    split <;> decide

/-- A number with decimals is not written with digits alone. -/
theorem exists_nondigit_fixed {places : Nat} (hplaces : places ≠ 0) (x : Float) :
    ∃ c ∈ (fixed places x).toList, c.isDigit = false := by
  unfold fixed
  dsimp only
  split
  · split
    · split
      · exact ⟨'I', by decide, by decide⟩
      · exact ⟨'I', by decide, by decide⟩
    · exact ⟨'N', by decide, by decide⟩
  · refine ⟨'.', ?_, by decide⟩
    rw [String.toList_append, List.mem_append]
    right
    unfold fixedDigits
    dsimp only
    rw [if_neg hplaces, String.toList_ofList]
    exact List.mem_append_right _ List.mem_cons_self

end Text

/-! ## The parts of a text -/

/-- What a text says of a filter: the names, the pattern, and two decimals of the least relevance. -/
def SearchFilter.wording {α : Type} [Score α] (f : SearchFilter α) : List String × String × String :=
  (f.names, f.filePattern, Score.hundredths f.minRelevance)

/-- The parts of a text in which the filter is told. -/
def SearchFilter.parts {α : Type} [Score α] (f : SearchFilter α) : List (List Char) :=
  ["filters:".toList ++ [','].intercalate (f.names.map (·.toList)), f.filePattern.toList,
    (Score.hundredths f.minRelevance).toList]

/-- A filter in which nothing reads like the end of a part or of a name. -/
structure SearchFilter.Plain {α : Type} (f : SearchFilter α) : Prop where
  pattern : '|' ∉ f.filePattern.toList
  names : ∀ name ∈ f.names, name.toList ≠ [] ∧ ',' ∉ name.toList ∧ '|' ∉ name.toList

instance {α : Type} (f : SearchFilter α) : Decidable f.Plain :=
  decidable_of_iff ('|' ∉ f.filePattern.toList ∧
      ∀ name ∈ f.names, name.toList ≠ [] ∧ ',' ∉ name.toList ∧ '|' ∉ name.toList)
    ⟨fun h => ⟨h.1, h.2⟩, fun h => ⟨h.pattern, h.names⟩⟩

/-- A filter in which nothing reads like the end of a part. -/
structure SearchFilter.Barless {α : Type} (f : SearchFilter α) : Prop where
  pattern : '|' ∉ f.filePattern.toList
  names : ∀ name ∈ f.names, '|' ∉ name.toList

namespace SearchFilter

variable {f g : SearchFilter Float}

theorem Plain.barless (h : f.Plain) : f.Barless := ⟨h.pattern, fun name hname => (h.names name hname).2.2⟩

theorem Barless.bar_notMem_parts (h : f.Barless) : ∀ p ∈ f.parts, '|' ∉ p := by
  intro p hp
  rw [parts, List.mem_cons, List.mem_cons, List.mem_singleton] at hp
  rcases hp with rfl | rfl | rfl
  · rw [List.mem_append, not_or]
    refine ⟨by decide, Text.notMem_intercalate (by decide) fun w hw => ?_⟩
    obtain ⟨name, hname, rfl⟩ := List.mem_map.mp hw
    exact h.names name hname
  · exact h.pattern
  · exact Text.bar_notMem_fixed 2 f.minRelevance

/-- The parts tell plain filters apart as far as their words go. -/
theorem Plain.wording_eq (hf : f.Plain) (hg : g.Plain) (h : f.parts = g.parts) : f.wording = g.wording := by
  simp only [parts, List.cons.injEq, List.append_cancel_left_eq, and_true] at h
  obtain ⟨hnames, hpattern, hrelevance⟩ := h
  have hwords : ∀ {f : SearchFilter Float}, f.Plain → ∀ w ∈ f.names.map (·.toList), w ≠ [] ∧ ',' ∉ w := by
    intro f hf w hw
    obtain ⟨name, hname, rfl⟩ := List.mem_map.mp hw
    exact ⟨(hf.names name hname).1, (hf.names name hname).2.1⟩
  have hnames' : f.names = g.names :=
    (List.map_inj_right fun _ _ h => String.toList_injective h).mp
      (Text.intercalate_injective (hwords hf) (hwords hg) hnames)
  rw [wording, wording, hnames', String.toList_injective hpattern, String.toList_injective hrelevance]

end SearchFilter

namespace SearchRequest

/-- The parts of the text of a request behind its query. -/
def keyParts {α : Type} [Score α] (r : SearchRequest α) : List (List Char) :=
  [r.effectiveMode.toList, (toString r.projectId).toList, (toString r.effectiveLimit).toList] ++
    match r.filter with
    | none => []
    | some f => f.parts

theorem toList_cacheKey {α : Type} [Score α] (r : SearchRequest α) :
    r.cacheKey.toList = r.trimmedQuery.toList ++ r.keyParts.flatMap ('|' :: ·) := by
  have hbar : (toString "|").toList = ['|'] := rfl
  unfold cacheKey keyParts
  cases r.filter with
  | none => simp [hbar]
  | some f => simp [hbar, SearchFilter.parts, String.toList_intercalate]

/-- A request in which neither the mode nor the filter reads like the end of a part. -/
structure Plain {α : Type} (r : SearchRequest α) : Prop where
  mode : '|' ∉ r.effectiveMode.toList
  filter : ∀ f ∈ r.filter, f.Plain

instance {α : Type} (r : SearchRequest α) : Decidable r.Plain :=
  decidable_of_iff ('|' ∉ r.effectiveMode.toList ∧ ∀ f ∈ r.filter, f.Plain)
    ⟨fun h => ⟨h.1, h.2⟩, fun h => ⟨h.mode, h.filter⟩⟩

/-- Two requests ask for the same, as far as their texts tell. -/
structure SameWording {α : Type} [Score α] (r r' : SearchRequest α) : Prop where
  query : r.trimmedQuery = r'.trimmedQuery
  mode : r.effectiveMode = r'.effectiveMode
  projectId : r.projectId = r'.projectId
  limit : r.effectiveLimit = r'.effectiveLimit
  filter : r.filter.map (·.wording) = r'.filter.map (·.wording)

variable {r r' : SearchRequest Float}

theorem bar_notMem_keyParts (hmode : '|' ∉ r.effectiveMode.toList) (hbarless : ∀ f ∈ r.filter, f.Barless) :
    ∀ p ∈ r.keyParts, '|' ∉ p := by
  have hlimit : '|' ∉ (toString r.effectiveLimit).toList := Text.bar_notMem_toString_int r.effectiveLimit
  rw [keyParts, List.forall_mem_append]
  constructor
  · simp only [List.forall_mem_cons, List.not_mem_nil, false_implies, implies_true, and_true]
    exact ⟨hmode, Text.bar_notMem_toString_int r.projectId, hlimit⟩
  · cases hfilter : r.filter with
    | none => exact fun p hp => absurd hp List.not_mem_nil
    | some f => exact (hbarless f hfilter).bar_notMem_parts

/-- The text of a request with a filter ends in a number with decimals, that of one without in a whole
number. -/
theorem cacheKey_ne_of_filter (hnone : r.filter = none) {f : SearchFilter Float} (hsome : r'.filter = some f) :
    r.cacheKey ≠ r'.cacheKey := by
  intro hkey
  have htexts := congrArg String.toList hkey
  have hparts : r.keyParts = [r.effectiveMode.toList, (toString r.projectId).toList] ++
      [(toString r.effectiveLimit).toList] := by
    rw [keyParts, hnone]
    rfl
  have hparts' : r'.keyParts = [r'.effectiveMode.toList, (toString r'.projectId).toList,
      (toString r'.effectiveLimit).toList, "filters:".toList ++ [','].intercalate (f.names.map (·.toList)),
      f.filePattern.toList] ++ [(Score.hundredths f.minRelevance).toList] := by
    rw [keyParts, hsome]
    rfl
  rw [toList_cacheKey, toList_cacheKey, hparts, hparts'] at htexts
  have hlimit : '|' ∉ (toString r.effectiveLimit).toList := Text.bar_notMem_toString_int r.effectiveLimit
  obtain ⟨-, hlast⟩ := Text.last_piece_unique htexts hlimit (Text.bar_notMem_fixed 2 f.minRelevance)
  obtain ⟨c, hc, hnondigit⟩ := Text.exists_nondigit_fixed (by decide : 2 ≠ 0) f.minRelevance
  have hdigit : c.isDigit = true := Text.isDigit_of_mem_repr (hlast ▸ hc)
  exact Bool.false_ne_true (hnondigit.symm.trans hdigit)

theorem length_keyParts_eq (hkey : r.cacheKey = r'.cacheKey) : r.keyParts.length = r'.keyParts.length := by
  unfold keyParts
  cases hfilter : r.filter with
  | none =>
      cases hfilter' : r'.filter with
      | none => rfl
      | some f => exact absurd hkey (cacheKey_ne_of_filter hfilter hfilter')
  | some f =>
      cases hfilter' : r'.filter with
      | none => exact absurd hkey.symm (cacheKey_ne_of_filter hfilter' hfilter)
      | some g => rfl

/-- A text whose parts are free of bars tells the query and the mode of every request with this text. -/
theorem query_mode_of_cacheKey_eq (hquery : '|' ∉ r.trimmedQuery.toList) (hmode : '|' ∉ r.effectiveMode.toList)
    (hbarless : ∀ f ∈ r.filter, f.Barless) (hkey : r.cacheKey = r'.cacheKey) :
    r.trimmedQuery = r'.trimmedQuery ∧ r.effectiveMode = r'.effectiveMode := by
  have htexts := congrArg String.toList hkey
  rw [toList_cacheKey, toList_cacheKey] at htexts
  have hlength := length_keyParts_eq hkey
  have hparts := bar_notMem_keyParts hmode hbarless
  have hparts' := Text.free_of_pieces_eq hlength htexts hquery hparts
  obtain ⟨hsame, hrest⟩ := Text.pieces_unique hlength htexts hparts hparts'
  unfold keyParts at hrest
  exact ⟨String.toList_injective hsame, String.toList_injective (List.cons.inj hrest).1⟩

/-- Plain requests of one text ask for the same, as far as their texts tell. -/
theorem Plain.sameWording (h : r.Plain) (h' : r'.Plain) (hkey : r.cacheKey = r'.cacheKey) :
    r.SameWording r' := by
  have htexts := congrArg String.toList hkey
  rw [toList_cacheKey, toList_cacheKey] at htexts
  have hfree : ∀ {r : SearchRequest Float}, r.Plain → ∀ p ∈ r.keyParts, '|' ∉ p := fun h =>
    bar_notMem_keyParts h.mode fun f hf => (h.filter f hf).barless
  obtain ⟨hquery, hparts⟩ := Text.pieces_unique (length_keyParts_eq hkey) htexts (hfree h) (hfree h')
  unfold keyParts at hparts
  obtain ⟨hfixed, hfilters⟩ := List.append_inj hparts rfl
  simp only [List.cons.injEq, and_true] at hfixed
  obtain ⟨hmode, hproject, hlimit⟩ := hfixed
  refine ⟨String.toList_injective hquery, String.toList_injective hmode,
    Int.repr_injective (String.toList_injective hproject), ?_, ?_⟩
  · exact Nat.repr_inj.mp (String.toList_injective hlimit)
  · cases hfilter : r.filter with
    | none =>
        cases hfilter' : r'.filter with
        | none => rfl
        | some f => exact absurd hkey (cacheKey_ne_of_filter hfilter hfilter')
    | some f =>
        cases hfilter' : r'.filter with
        | none => exact absurd hkey.symm (cacheKey_ne_of_filter hfilter' hfilter)
        | some g =>
            rw [hfilter, hfilter'] at hfilters
            exact congrArg some ((h.filter f hfilter).wording_eq (h'.filter g hfilter') hfilters)

end SearchRequest

end OverloadDocs
