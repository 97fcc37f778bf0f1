import OverloadDocs.Proofs.IndexTables

/-!
Agreement of the look-ups. A query can be resolved, selected by, looked up in the table of keys or simply compared
with every registered signature. Whatever its parameter types are, all of these come to the same signatures: the
overloads of an index differ from each other, so that a qualified query matches at most one of them.
-/

namespace OverloadDocs

/-! ## Queries -/

namespace Query

theorem matches_of_types?_eq_none {q : Query} (h : q.types? = none) (s : Signature) :
    q.Matches s ↔ s.name = q.name := by
  simp [Matches, h]

theorem matches_of_types?_eq_some {q : Query} {types : List TypeExpr} (h : q.types? = some types)
    (s : Signature) : q.Matches s ↔ s.name = q.name ∧ s.paramTypes = types := by
  simp [Matches, h, eq_comm]

theorem Matches.sameOverload {q : Query} (hq : q.qualified = true) {s s' : Signature} (hs : q.Matches s)
    (hs' : q.Matches s') : s.SameOverload s' := by
  obtain ⟨types, htypes⟩ := Option.isSome_iff_exists.mp hq
  rw [matches_of_types?_eq_some htypes] at hs hs'
  exact ⟨hs.1.trans hs'.1.symm, hs.2.trans hs'.2.symm⟩

/-- Of different overloads a qualified query matches at most one. -/
theorem length_filter_matches_le_one {q : Query} (hq : q.qualified = true) {sigs : List Signature}
    (hsigs : sigs.Pairwise fun s s' => ¬ s.SameOverload s') :
    (sigs.filter (q.Matches ·)).length ≤ 1 := by
  have hfound := hsigs.filter (q.Matches ·)
  have hmatches : ∀ s ∈ sigs.filter (q.Matches ·), q.Matches s := fun s hs =>
    of_decide_eq_true (List.mem_filter.mp hs).2
  match sigs.filter (q.Matches ·), hfound, hmatches with
  | [], _, _ => exact Nat.zero_le _
  | [_], _, _ => exact Nat.le_refl _
  | s :: s' :: rest, hfound, hmatches =>
      obtain ⟨hs, hrest⟩ := List.forall_mem_cons.mp hmatches
      exact absurd (hs.sameOverload hq (hrest s' List.mem_cons_self))
        ((List.pairwise_cons.mp hfound).1 s' List.mem_cons_self)

end Query

theorem Index.filter_byName (idx : Index) (q : Query) :
    (idx.byName q.name).filter (q.Matches ·) = idx.matching q := by
  rw [byName, matching, List.filter_filter]
  refine List.filter_congr fun s _ => ?_
  rw [Bool.and_eq_left_iff_imp]
  exact fun h => decide_eq_true (of_decide_eq_true h).1

/-! ## Resolutions -/

namespace Resolution

variable {overloads : List Signature} {q : Query}

/-- What a query comes to among the overloads of its name: those of them that it matches, however many these
are. -/
theorem among_cases (hname : ∀ s ∈ overloads, s.name = q.name)
    (hdistinct : overloads.Pairwise fun s s' => ¬ s.SameOverload s') :
    (overloads.filter (q.Matches ·) = [] ∧
        among overloads q = ⟨.notFound, q, [], q.qualified && !overloads.isEmpty⟩) ∨
      (∃ s, overloads.filter (q.Matches ·) = [s] ∧ among overloads q = ⟨.unique, q, [s], false⟩) ∨
      (2 ≤ (overloads.filter (q.Matches ·)).length ∧
        among overloads q = ⟨.ambiguous, q, overloads.filter (q.Matches ·), false⟩) := by
  unfold among
  cases htypes : q.types? with
  | none =>
      -- A bare name matches every overload that has it.
      have hall : overloads.filter (q.Matches ·) = overloads :=
        List.filter_eq_self.mpr fun s hs =>
          decide_eq_true ((Query.matches_of_types?_eq_none htypes s).mpr (hname s hs))
      have hbare : q.qualified = false := by rw [Query.qualified, htypes, Option.isSome_none]
      rw [hall, hbare]
      match overloads with
      | [] => exact .inl ⟨rfl, rfl⟩
      | [s] => exact .inr (.inl ⟨s, rfl, rfl⟩)
      | s :: s' :: rest => exact .inr (.inr ⟨Nat.le_add_left 2 rest.length, rfl⟩)
  | some types =>
      have hqualified : q.qualified = true := by rw [Query.qualified, htypes, Option.isSome_some]
      have hsingle := Query.length_filter_matches_le_one hqualified hdistinct
      have hhead : overloads.find? (q.Matches ·) = (overloads.filter (q.Matches ·)).head? :=
        List.head?_filter.symm
      rw [hhead, hqualified, Bool.true_and]
      match overloads.filter (q.Matches ·), hsingle with
      | [], _ => exact .inl ⟨rfl, rfl⟩
      | [s], _ => exact .inr (.inl ⟨s, rfl, rfl⟩)

theorem candidates_among (hname : ∀ s ∈ overloads, s.name = q.name)
    (hdistinct : overloads.Pairwise fun s s' => ¬ s.SameOverload s') :
    (among overloads q).candidates = overloads.filter (q.Matches ·) := by
  obtain ⟨hlist, hresolve⟩ | ⟨s, hlist, hresolve⟩ | ⟨-, hresolve⟩ := among_cases hname hdistinct
  · rw [hresolve, hlist]
  · rw [hresolve, hlist]
  · rw [hresolve]

end Resolution

theorem Index.candidates_resolve {idx : Index} (h : idx.signatures.Pairwise fun s s' => ¬ s.SameOverload s')
    (q : Query) : (idx.resolve q).candidates = idx.matching q := by
  have hname : ∀ s ∈ idx.byName q.name, s.name = q.name := fun s hs =>
    of_decide_eq_true (List.mem_filter.mp hs).2
  rw [resolve, Resolution.candidates_among hname (h.sublist List.filter_sublist), filter_byName]

/-! ## Selections -/

namespace Selection

/-- The signatures that are kept behind others when each key counts once. -/
def keepNew (kept sigs : List Signature) : List Signature :=
  sigs.foldl (fun kept s => if kept.any (·.key = s.key) then kept else kept ++ [s]) kept

/-- The keys that a selection has met are those of what it has selected. -/
def InStep (sel : Selection) : Prop := ∀ key, key ∈ sel.seen ↔ ∃ s ∈ sel.selected, s.key = key

theorem InStep.empty : InStep {} := fun _ => by simp

theorem InStep.take {sel : Selection} (h : sel.InStep) (s : Signature) :
    (sel.take s).InStep ∧ (sel.take s).selected = keepNew sel.selected [s] ∧
      (sel.take s).unmatched = sel.unmatched := by
  have hany : sel.selected.any (·.key = s.key) = true ↔ s.key ∈ sel.seen := by
    rw [h s.key, List.any_eq_true]
    simp only [decide_eq_true_eq]
  by_cases hseen : s.key ∈ sel.seen
  · have hkept : keepNew sel.selected [s] = sel.selected := if_pos (hany.mpr hseen)
    rw [Selection.take, if_pos hseen, hkept]
    exact ⟨h, rfl, rfl⟩
  · have hkept : keepNew sel.selected [s] = sel.selected ++ [s] := if_neg fun hit => hseen (hany.mp hit)
    rw [Selection.take, if_neg hseen, hkept]
    refine ⟨fun key => ?_, rfl, rfl⟩
    simp only [List.mem_cons, h key, List.mem_append, List.not_mem_nil, or_false]
    constructor
    · rintro (rfl | ⟨s', hs', hkey⟩)
      · exact ⟨s, .inr rfl, rfl⟩
      · exact ⟨s', .inl hs', hkey⟩
    · rintro ⟨s', hs' | rfl, rfl⟩
      · exact .inr ⟨s', hs', rfl⟩
      · exact .inl rfl

theorem InStep.foldl_take {sel : Selection} (h : sel.InStep) (sigs : List Signature) :
    (sigs.foldl Selection.take sel).InStep ∧
      (sigs.foldl Selection.take sel).selected = keepNew sel.selected sigs ∧
      (sigs.foldl Selection.take sel).unmatched = sel.unmatched := by
  induction sigs generalizing sel with
  | nil => exact ⟨h, rfl, rfl⟩
  | cons s sigs ih =>
      obtain ⟨hstep, hselected, hunmatched⟩ := h.take s
      obtain ⟨hrun, hselected', hunmatched'⟩ := ih hstep
      rw [List.foldl_cons]
      refine ⟨hrun, ?_, hunmatched'.trans hunmatched⟩
      rw [hselected', hselected]
      rfl

variable {t : TabledIndex}

/-- One more member adds what it matches and, if this is nothing, itself to what is not matched. -/
theorem InStep.add {sel : Selection} (h : sel.InStep) (ht : t.InStep) (member : Query) :
    (sel.add t member).InStep ∧
      (sel.add t member).selected = keepNew sel.selected (t.matching member) ∧
      (sel.add t member).unmatched = sel.unmatched ++ t.unmatched [member] := by
  have hmatched : (t.overloads member.name).filter (member.Matches ·) = t.matching member := by
    rw [ht.overloads_eq, Index.filter_byName]
  obtain ⟨hrun, hselected, hunmatched⟩ := h.foldl_take (t.matching member)
  unfold Selection.add
  simp only [hmatched]
  cases hempty : (t.matching member).isEmpty with
  | false =>
      have hnone : t.unmatched [member] = [] := by simp [Index.unmatched, hempty]
      rw [if_neg Bool.false_ne_true, hnone, List.append_nil]
      exact ⟨hrun, hselected, hunmatched⟩
  | true =>
      have hself : t.unmatched [member] = [⟨member, member.qualified && t.knows member.name⟩] := by
        simp [Index.unmatched, hempty, ht.knows_eq]
      rw [if_pos rfl, hself, hunmatched]
      exact ⟨hrun, hselected, rfl⟩

theorem InStep.foldl_add {sel : Selection} (h : sel.InStep) (ht : t.InStep) (members : List Query) :
    (members.foldl (Selection.add t) sel).selected = keepNew sel.selected (members.flatMap t.matching) ∧
      (members.foldl (Selection.add t) sel).unmatched = sel.unmatched ++ t.unmatched members := by
  induction members generalizing sel with
  | nil => exact ⟨rfl, (List.append_nil _).symm⟩
  | cons member members ih =>
      obtain ⟨hstep, hselected, hunmatched⟩ := h.add ht member
      obtain ⟨hselected', hunmatched'⟩ := ih hstep
      have hsplit : t.unmatched (member :: members) = t.unmatched [member] ++ t.unmatched members := by
        rw [Index.unmatched, List.filter_cons]
        split <;> simp_all [Index.unmatched]
      rw [List.foldl_cons, hselected', hunmatched', hselected, hunmatched, hsplit, List.append_assoc]
      refine ⟨?_, rfl⟩
      rw [List.flatMap_cons, keepNew, keepNew, keepNew, List.foldl_append]

end Selection

theorem Index.dedupByKey_eq_self {sigs : List Signature} (h : (sigs.map (·.key)).Nodup) :
    dedupByKey sigs = sigs := by
  induction sigs using List.reverseRecOn with
  | nil => rfl
  | append_singleton sigs s ih =>
      rw [List.map_append, List.map_singleton, ← List.concat_eq_append, List.nodup_concat] at h
      have hnew : ¬ (sigs.any (·.key = s.key)) = true := by
        rw [List.any_eq_true]
        rintro ⟨s', hs', hkey⟩
        exact h.1 (List.mem_map.mpr ⟨s', hs', of_decide_eq_true hkey⟩)
      rw [dedupByKey, List.foldl_append, ← dedupByKey, ih h.2, List.foldl_cons, List.foldl_nil, if_neg hnew]

namespace TabledIndex

variable {t : TabledIndex}

/-- Resolving through the tables is resolving in the list of the entries. -/
theorem InStep.resolve_eq (h : t.InStep) (q : Query) : t.resolve q = t.toIndex.resolve q := by
  rw [resolve, Index.resolve, h.overloads_eq]

/-- Selecting member by member is selecting from the list of the entries. -/
theorem InStep.select_eq (h : t.InStep) (members : List Query) :
    t.select members = t.toIndex.select members := by
  obtain ⟨hselected, hunmatched⟩ := Selection.InStep.empty.foldl_add h members
  rw [select, Index.select]
  split
  · rfl
  · simp only [hselected, hunmatched, List.nil_append]
    rfl

/-! ## One query -/

/-- The list, looked up in the table of keys, has just the overload with the name and the types of a query. -/
theorem InStep.matching_eq_find? (h : t.InStep) {q : Query} {types : List TypeExpr}
    (htypes : q.types? = some types) : t.matching q = (t.find? q.name types).toList := by
  have hqualified : q.qualified = true := by rw [Query.qualified, htypes, Option.isSome_some]
  have hsingle := Query.length_filter_matches_le_one hqualified h.lookUpLaws.distinct
  have hmem : ∀ s, s ∈ t.matching q ↔ t.find? q.name types = some s := by
    intro s
    rw [h.find?_eq_some, Index.matching, List.mem_filter, decide_eq_true_eq,
      Query.matches_of_types?_eq_some htypes]
  change (t.matching q).length ≤ 1 at hsingle
  match hlist : t.matching q, hsingle with
  | [], _ =>
      have hnone : t.find? q.name types = none := by
        refine Option.eq_none_iff_forall_ne_some.mpr fun s hs => ?_
        have hs' := (hmem s).mpr hs
        rw [hlist] at hs'
        exact List.not_mem_nil hs'
      rw [hnone, Option.toList_none]
  | [s], _ =>
      rw [(hmem s).mp (hlist ▸ List.mem_cons_self), Option.toList_some]

theorem InStep.select_singleton (h : t.InStep) (q : Query) :
    t.select [q] =
      (t.matching q, if t.matching q = [] then [⟨q, q.qualified && t.hasName q.name⟩] else []) := by
  have hkeys : ((t.matching q).map (·.key)).Nodup := by
    have hall : (t.signatures.map (·.key)).Nodup := by
      rw [Index.signatures, List.map_map]
      exact h.distinct
    exact hall.sublist (List.filter_sublist.map _)
  have hnonempty : ¬ ([q] : List Query).isEmpty = true := Bool.false_ne_true
  rw [h.select_eq, Index.select, if_neg hnonempty, List.flatMap_singleton, Index.dedupByKey_eq_self hkeys,
    Index.unmatched]
  by_cases hnone : t.matching q = []
  · simp [hnone]
  · simp [hnone]

theorem InStep.resolve_cases (h : t.InStep) (q : Query) :
    (t.matching q = [] ∧ t.resolve q = ⟨.notFound, q, [], q.qualified && t.hasName q.name⟩) ∨
      (∃ s, t.matching q = [s] ∧ t.resolve q = ⟨.unique, q, [s], false⟩) ∨
      (2 ≤ (t.matching q).length ∧ t.resolve q = ⟨.ambiguous, q, t.matching q, false⟩) := by
  have hname : ∀ s ∈ t.byName q.name, s.name = q.name := fun s hs =>
    of_decide_eq_true (List.mem_filter.mp hs).2
  have hdistinct := h.lookUpLaws.distinct.sublist (List.filter_sublist (p := (·.name = q.name)))
  have hcases := Resolution.among_cases hname hdistinct
  have hknown : (!(t.byName q.name).isEmpty) = t.hasName q.name := by
    rw [← h.overloads_eq, ← h.knows_eq, overloads, List.isEmpty_map, knows]
  rwa [Index.filter_byName, hknown, ← h.overloads_eq, ← resolve] at hcases

/-- What the ways to ask an index for the functions of a query agree on. -/
structure LookUpsAgree (t : TabledIndex) (q : Query) : Prop where
  resolvedInList : t.toIndex.resolve q = t.resolve q
  selectedFromList : t.toIndex.select [q] = t.select [q]
  resolved : (t.resolve q).candidates = t.signatures.filter (q.Matches ·)
  selected : (t.select [q]).1 = t.signatures.filter (q.Matches ·)
  single : q.qualified = true → (t.signatures.filter (q.Matches ·)).length ≤ 1
  found : ∀ types, q.types? = some types → (t.resolve q).candidates = (t.find? q.name types).toList
  notFound : (t.resolve q).kind = .notFound ↔ (t.resolve q).candidates.length = 0
  unique : (t.resolve q).kind = .unique ↔ (t.resolve q).candidates.length = 1
  ambiguous : (t.resolve q).kind = .ambiguous ↔ 2 ≤ (t.resolve q).candidates.length
  first : (t.resolve q).first? = t.signatures.find? (q.Matches ·)
  only : ∀ s, (t.resolve q).unique? = some s ↔ (t.resolve q).candidates = [s]
  known : (t.resolve q).nameKnown = true ↔
    (t.resolve q).candidates = [] ∧ q.qualified = true ∧ ∃ s ∈ t.signatures, s.name = q.name
  unmatched : (t.select [q]).2 =
    if (t.resolve q).candidates = [] then [⟨q, (t.resolve q).nameKnown⟩] else []

theorem InStep.candidates_eq (h : t.InStep) (q : Query) : (t.resolve q).candidates = t.matching q := by
  rw [h.resolve_eq, Index.candidates_resolve h.lookUpLaws.distinct]

theorem InStep.nameKnown_eq (h : t.InStep) (q : Query) :
    (t.resolve q).nameKnown =
      decide (t.matching q = [] ∧ q.qualified = true ∧ t.hasName q.name = true) := by
  obtain ⟨hlist, hresolve⟩ | ⟨s, hlist, hresolve⟩ | ⟨hmany, hresolve⟩ := h.resolve_cases q
  · simp [hresolve, hlist]
  · simp [hresolve, hlist]
  · have hsome : t.matching q ≠ [] := List.ne_nil_of_length_pos (Nat.zero_lt_of_lt hmany)
    simp [hresolve, hsome]

theorem InStep.lookUpsAgree (h : t.InStep) (q : Query) : t.LookUpsAgree q where
  resolvedInList := (h.resolve_eq q).symm
  selectedFromList := (h.select_eq [q]).symm
  resolved := h.candidates_eq q
  selected := congrArg Prod.fst (h.select_singleton q)
  single hq := Query.length_filter_matches_le_one hq h.lookUpLaws.distinct
  found _ htypes := (h.candidates_eq q).trans (h.matching_eq_find? htypes)
  notFound := by
    obtain ⟨-, hresolve⟩ | ⟨s, -, hresolve⟩ | ⟨hmany, hresolve⟩ := h.resolve_cases q
    · simp [hresolve]
    · simp [hresolve]
    · simp only [hresolve, reduceCtorEq, false_iff]
      omega
  unique := by
    obtain ⟨-, hresolve⟩ | ⟨s, -, hresolve⟩ | ⟨hmany, hresolve⟩ := h.resolve_cases q
    · simp [hresolve]
    · simp [hresolve]
    · simp only [hresolve, reduceCtorEq, false_iff]
      omega
  ambiguous := by
    obtain ⟨-, hresolve⟩ | ⟨s, -, hresolve⟩ | ⟨hmany, hresolve⟩ := h.resolve_cases q
    · simp [hresolve]
    · simp [hresolve]
    · simp [hresolve, hmany]
  first := by
    rw [Resolution.first?, h.candidates_eq, Index.matching, List.head?_filter]
  only s := by
    obtain ⟨-, hresolve⟩ | ⟨s', -, hresolve⟩ | ⟨hmany, hresolve⟩ := h.resolve_cases q
    · simp [hresolve, Resolution.unique?]
    · simp [hresolve, Resolution.unique?]
    · have hseveral : t.matching q ≠ [s] := fun hone => by
        rw [hone] at hmany
        contradiction
      simp [hresolve, Resolution.unique?, hseveral]
  known := by
    rw [h.nameKnown_eq, h.candidates_eq, decide_eq_true_eq]
    simp [Index.hasName, Index.signatures]
  unmatched := by
    rw [h.select_singleton, h.candidates_eq]
    dsimp only
    split
    · rename_i hnone
      simp [h.nameKnown_eq, hnone]
    · rfl

/-- All ways to ask an index agree. After any calls from an empty index on, and for any query, resolving it and
selecting by it alone both come to the registered signatures that it matches, in their order. A qualified query
matches at most one, which is the one that looking up its name and types finds. The kind of a resolution tells
how many there are, and a query without any is reported as one whose name is known just when it is qualified and
some overload has its name. -/
theorem lookUpsAgree_afterCalls (supply : Anchors) (calls : List IndexCall) (q : Query) :
    (afterCalls supply calls).1.LookUpsAgree q :=
  (inStep_afterCalls supply calls).lookUpsAgree q

/-- A query whose types have the text of a registered overload and are not its types comes to nothing, and its name
is known. -/
example :
    let s : Signature := { name := "f", params := [{ type := .vector }], anchor := "a" }
    let t := (afterCalls {} [.register (some s) none]).1
    let q : Query := ⟨"f", some [.primitive "vector"]⟩
    q.render = s.key ∧ (t.resolve q).candidates = [] ∧ t.select [q] = ([], [⟨q, true⟩]) := by
  decide +kernel

end TabledIndex

end OverloadDocs
