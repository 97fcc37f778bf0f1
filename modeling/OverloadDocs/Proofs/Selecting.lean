import OverloadDocs.Proofs.LookUps

/-!
Selections from an index. A selection counts the matches of a member before it leaves out what is selected
already, and it tells signatures apart by their keys. Registered signatures that differ have different keys, so
that what is left out is just what is there, and a member whose functions are all selected before is no member
that matches nothing.
-/

namespace OverloadDocs

/-- Where the keys tell signatures apart, keeping one of each key is keeping one of each signature. -/
theorem Index.dedupByKey_eq_eraseDups {sigs : List Signature}
    (hkeys : ∀ s ∈ sigs, ∀ s' ∈ sigs, s.key = s'.key → s = s') : dedupByKey sigs = sigs.eraseDups := by
  induction sigs using List.reverseRecOn with
  | nil => rfl
  | append_singleton sigs s ih =>
      have hinit : ∀ s ∈ sigs, ∀ s' ∈ sigs, s.key = s'.key → s = s' := fun s hs s' hs' =>
        hkeys s (List.mem_append_left _ hs) s' (List.mem_append_left _ hs')
      have hseen : sigs.eraseDups.any (·.key = s.key) = true ↔ s ∈ sigs := by
        simp only [List.any_eq_true, List.mem_eraseDups, decide_eq_true_eq]
        constructor
        · rintro ⟨s', hs', hkey⟩
          have hlast : s ∈ sigs ++ [s] := List.mem_append_right _ List.mem_cons_self
          exact hkeys s' (List.mem_append_left _ hs') s hlast hkey ▸ hs'
        · intro hs
          exact ⟨s, hs, rfl⟩
      rw [dedupByKey, List.foldl_append, ← dedupByKey, ih hinit, List.foldl_cons, List.foldl_nil,
        eraseDups_append_singleton]
      simp only [hseen]

/-- The members that match nothing are told apart by what is registered under their names. -/
theorem Index.unmatched_eq (idx : Index) (members : List Query) :
    idx.unmatched members =
      (members.filter fun q => idx.signatures.all (¬ q.Matches ·)).map fun q =>
        ⟨q, q.qualified && idx.signatures.any (·.name = q.name)⟩ := by
  have hnone : ∀ q : Query, (idx.matching q).isEmpty = idx.signatures.all (¬ q.Matches ·) := fun q => by
    rw [Bool.eq_iff_iff, matching]
    simp
  have hname : ∀ name, idx.hasName name = idx.signatures.any (·.name = name) := fun name => by
    rw [hasName, signatures, List.any_map]
    rfl
  simp only [unmatched, hnone, hname]

namespace TabledIndex

variable {t : TabledIndex}

/-- Registered signatures with the same key are the same. -/
theorem InStep.eq_of_key_eq (h : t.InStep) {s s' : Signature} (hs : s ∈ t.signatures) (hs' : s' ∈ t.signatures)
    (hkey : s.key = s'.key) : s = s' := by
  have hnodup : (t.signatures.map (·.key)).Nodup := by
    rw [Index.signatures, List.map_map]
    exact h.distinct
  exact List.inj_on_of_nodup_map hnodup hs hs' hkey

/-- Selections are exact. After any calls from an empty index on, the empty list selects every registered signature,
and any other list, member after member, the registered signatures that this matches in their order, without those
selected before. A member is reported just when it matches no registered signature at all, as one whose name is
known if it is qualified and some registered signature has its name. -/
theorem select_afterCalls (supply : Anchors) (calls : List IndexCall) :
    let t := (afterCalls supply calls).1
    t.select [] = (t.signatures, []) ∧
      ∀ members, members ≠ [] → t.select members =
        ((members.flatMap fun q => t.signatures.filter (q.Matches ·)).eraseDups,
          (members.filter fun q => t.signatures.all (¬ q.Matches ·)).map fun q =>
            ⟨q, q.qualified && t.signatures.any (·.name = q.name)⟩) := by
  intro t
  have ht : t.InStep := inStep_afterCalls supply calls
  refine ⟨rfl, fun members hmembers => ?_⟩
  have hmem : ∀ s ∈ members.flatMap t.matching, s ∈ t.signatures := fun s hs => by
    obtain ⟨q, -, hs⟩ := List.mem_flatMap.mp hs
    exact List.mem_of_mem_filter hs
  have hkeys : ∀ s ∈ members.flatMap t.matching, ∀ s' ∈ members.flatMap t.matching, s.key = s'.key → s = s' :=
    fun s hs s' hs' => ht.eq_of_key_eq (hmem s hs) (hmem s' hs')
  have hsome : ¬ members.isEmpty = true := by rwa [List.isEmpty_iff]
  rw [ht.select_eq, Index.select, if_neg hsome, Index.dedupByKey_eq_eraseDups hkeys, Index.unmatched_eq]
  rfl

/-- Bare and qualified members that overlap, before and behind each other, between two that match nothing. -/
theorem select_of_overlapping_members :
    let real (name : String) : Signature :=
      { name := name, params := [{ type := .primitive "real" }], anchor := "r" }
    let vector : Signature := { name := "f", params := [{ type := .vector }], anchor := "v" }
    let calls : List IndexCall :=
      [.register (some (real "f")) none, .register (some (real "g")) none, .register (some vector) none,
        .register (some vector) none, .freeze]
    let members : List Query :=
      [⟨"f", some []⟩, ⟨"f", some [.vector]⟩, ⟨"g", none⟩, ⟨"f", none⟩, ⟨"f", some [.primitive "real"]⟩,
        ⟨"g", none⟩, ⟨"h", none⟩, ⟨"f", some []⟩]
    members ≠ [] ∧
      (afterCalls {} calls).1.select members =
        ([vector, real "g", real "f"], [⟨⟨"f", some []⟩, true⟩, ⟨⟨"h", none⟩, false⟩, ⟨⟨"f", some []⟩, true⟩]) := by
  intro real vector calls members
  have hmembers : members ≠ [] := List.cons_ne_nil _ _
  refine ⟨hmembers, ?_⟩
  rw [(select_afterCalls {} calls).2 members hmembers]
  decide +kernel

end TabledIndex

end OverloadDocs
