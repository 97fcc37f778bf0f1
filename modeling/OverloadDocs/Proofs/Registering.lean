import Mathlib.Data.List.Induction
import OverloadDocs.Index

/-!
Registering and merging. A registration goes through just when the index is open, the signature has no fault
and no entry has its key. A merge of valid entries that have their anchors already keeps the first function of
every overload, in order, and numbers what it keeps by position.
-/

namespace OverloadDocs

namespace Documented

/-- A function in another place of the declaration order. -/
def withOrder (f : Documented) (order : Int) : Documented :=
  { f with signature := { f.signature with order := order } }

def unanchored (f : Documented) : Documented :=
  { f with signature := { f.signature with anchor := "" } }

def numbered (fs : List Documented) : List Documented := fs.mapIdx fun i f => f.withOrder i

/-- The first function of every overload. -/
def firsts : List Documented → List Documented
  | [] => []
  | f :: fs => f :: (firsts fs).filter (·.signature.key ≠ f.signature.key)

theorem firsts_sublist (fs : List Documented) : (firsts fs).Sublist fs := by
  induction fs with
  | nil => exact .slnil
  | cons f fs ih => exact (List.filter_sublist.trans ih).cons_cons f

theorem nodup_keys_firsts (fs : List Documented) : ((firsts fs).map (·.signature.key)).Nodup := by
  induction fs with
  | nil => exact List.nodup_nil
  | cons f fs ih =>
      rw [firsts, List.map_cons, List.nodup_cons]
      refine ⟨fun hmem => ?_, ih.sublist (List.filter_sublist.map _)⟩
      obtain ⟨g, hg, hkey⟩ := List.mem_map.mp hmem
      exact of_decide_eq_true (List.mem_filter.mp hg).2 hkey

theorem mem_keys_firsts {fs : List Documented} {key : String} :
    key ∈ (firsts fs).map (·.signature.key) ↔ key ∈ fs.map (·.signature.key) := by
  induction fs with
  | nil => exact .rfl
  | cons f fs ih =>
      rw [firsts, List.map_cons, List.map_cons, List.mem_cons, List.mem_cons, ← ih]
      by_cases hkey : key = f.signature.key
      · simp only [hkey, true_or]
      · simp only [hkey, false_or, List.mem_map, List.mem_filter, decide_eq_true_eq]
        constructor
        · rintro ⟨g, ⟨hg, -⟩, heq⟩
          exact ⟨g, hg, heq⟩
        · rintro ⟨g, hg, heq⟩
          exact ⟨g, ⟨hg, heq ▸ hkey⟩, heq⟩

/-- Of one more function it counts whether its overload is there already. -/
theorem firsts_append_singleton (fs : List Documented) (f : Documented) :
    firsts (fs ++ [f]) =
      if f.signature.key ∈ fs.map (·.signature.key) then firsts fs else firsts fs ++ [f] := by
  induction fs with
  | nil => rfl
  | cons g fs ih =>
      rw [List.cons_append, firsts, ih, firsts, List.map_cons]
      by_cases hkey : f.signature.key = g.signature.key
      · rw [if_pos (List.mem_cons.mpr (.inl hkey))]
        split
        · rfl
        · simp [hkey]
      · simp only [List.mem_cons, hkey, false_or]
        split
        · rfl
        · simp [hkey]

theorem firsts_map (change : Documented → Documented)
    (hchange : ∀ f, (change f).signature.key = f.signature.key) (fs : List Documented) :
    firsts (fs.map change) = (firsts fs).map change := by
  induction fs with
  | nil => rfl
  | cons f fs ih =>
      rw [List.map_cons, firsts, firsts, ih, List.map_cons, List.filter_map]
      congr 2
      refine List.filter_congr fun g _ => ?_
      simp only [Function.comp_apply, hchange]

theorem numbered_append_singleton (fs : List Documented) (f : Documented) :
    numbered (fs ++ [f]) = numbered fs ++ [f.withOrder fs.length] := by
  simp only [numbered, List.mapIdx_append, List.mapIdx_singleton, Nat.zero_add]

@[simp]
theorem length_numbered (fs : List Documented) : (numbered fs).length = fs.length := List.length_mapIdx

theorem mem_numbered {fs : List Documented} {f : Documented} :
    f ∈ numbered fs → ∃ g ∈ fs, ∃ i : Nat, f = g.withOrder i := by
  intro hf
  obtain ⟨i, hi, rfl⟩ := List.mem_mapIdx.mp hf
  exact ⟨fs[i], List.getElem_mem hi, i, rfl⟩

/-- What the order does not touch is not changed by numbering. -/
theorem map_numbered {α : Type} {view : Documented → α} (hview : ∀ f i, view (f.withOrder i) = view f)
    (fs : List Documented) : (numbered fs).map view = fs.map view := by
  induction fs using List.reverseRecOn with
  | nil => rfl
  | append_singleton fs f ih =>
      rw [numbered_append_singleton, List.map_append, ih, List.map_append, List.map_singleton,
        List.map_singleton, hview]

theorem numbered_map_unanchored (fs : List Documented) :
    numbered (fs.map unanchored) = (numbered fs).map unanchored := by
  induction fs using List.reverseRecOn with
  | nil => rfl
  | append_singleton fs f ih =>
      rw [List.map_append, List.map_singleton, numbered_append_singleton, ih, numbered_append_singleton,
        List.map_append, List.map_singleton, List.length_map]
      rfl

/-- Numbered functions stand in increasing order. -/
theorem pairwise_order_numbered (fs : List Documented) :
    (numbered fs).Pairwise (·.signature.order < ·.signature.order) := by
  rw [List.pairwise_iff_getElem]
  intro i j hi hj hlt
  simp only [numbered, List.getElem_mapIdx]
  exact Int.ofNat_lt.mpr hlt

end Documented

namespace Index

theorem byKey?_eq_none {idx : Index} {key : String} :
    idx.byKey? key = none ↔ key ∉ idx.entries.map (·.signature.key) := by
  rw [byKey?, List.find?_eq_none, List.mem_map, not_exists]
  simp

/-- A registration goes through just when the index is open, the signature is valid, and its overload is
new. -/
theorem register_eq_ok {idx idx' : Index} {supply supply' : Anchors} {s : Signature} {doc : Documentation} :
    idx.register supply (some s) doc = .ok (idx', supply') ↔
      idx.frozen = false ∧ s.Valid ∧ s.key ∉ idx.entries.map (·.signature.key) ∧
        idx' = { idx with entries := idx.entries ++ [⟨(anchored supply s).1, doc⟩] } ∧
        supply' = (anchored supply s).2 := by
  rw [← byKey?_eq_none, register, Signature.Valid]
  cases idx.frozen <;> cases s.fault? <;> cases idx.byKey? s.key <;> simp [eq_comm]

/-- An overload that is there already is refused with the entry that has it. -/
theorem register_of_known {idx : Index} {s : Signature} (hopen : idx.frozen = false) (hs : s.Valid)
    (hknown : s.key ∈ idx.entries.map (·.signature.key)) (supply : Anchors) (doc : Documentation) :
    ∃ k ∈ idx.entries, k.signature.key = s.key ∧
      idx.register supply (some s) doc = .error (.duplicate k.signature s) := by
  obtain ⟨g, hg, hkey⟩ := List.mem_map.mp hknown
  have hsome : (idx.byKey? s.key).isSome := List.find?_isSome.mpr ⟨g, hg, decide_eq_true hkey⟩
  obtain ⟨k, hk⟩ := Option.isSome_iff_exists.mp hsome
  have hfault : s.fault? = none := hs
  refine ⟨k, List.mem_of_find?_eq_some hk, by simpa using List.find?_some hk, ?_⟩
  rw [register, hopen, if_neg Bool.false_ne_true]
  simp only [hfault, hk]

theorem anchored_of_ne {supply : Anchors} {s : Signature} (hs : s.anchor ≠ "") :
    anchored supply s = (s, supply) := by
  rw [anchored, Anchors.orFresh, if_neg hs]

/-- An entry as merges take it: valid, and with its anchor. -/
structure Mergeable (e : Documented) : Prop where
  valid : e.signature.Valid
  anchor : e.signature.anchor ≠ ""

/-- An entry with a new overload is registered as it is. -/
theorem Mergeable.register_eq {idx : Index} {e : Documented} (he : Mergeable e) (hopen : idx.frozen = false)
    (hnew : e.signature.key ∉ idx.entries.map (·.signature.key)) (supply : Anchors) :
    idx.register supply (some e.signature) e.doc =
      .ok ({ idx with entries := idx.entries ++ [e] }, supply) :=
  register_eq_ok.mpr ⟨hopen, he.valid, hnew, by rw [anchored_of_ne he.anchor], by rw [anchored_of_ne he.anchor]⟩

/-- An entry is merged behind the others unless its overload is there already. -/
theorem Merging.add_eq {m : Merging} {e : Documented} (hopen : m.index.frozen = false)
    (he : Mergeable e) :
    (m.add e).supply = m.supply ∧ (m.add e).index.frozen = false ∧
      (m.add e).index.entries =
        if e.signature.key ∈ m.index.entries.map (·.signature.key) then m.index.entries
        else m.index.entries ++ [e.withOrder m.index.size] := by
  let numbered : Documented := e.withOrder m.index.size
  have hnumbered : Mergeable numbered := ⟨he.valid, he.anchor⟩
  have hkey : numbered.signature.key = e.signature.key := rfl
  rw [Merging.add]
  by_cases hmem : e.signature.key ∈ m.index.entries.map (·.signature.key)
  · rw [if_pos hmem]
    split
    · rename_i index supply heq
      exact absurd (hkey ▸ hmem) (register_eq_ok.mp heq).2.2.1
    · exact ⟨rfl, hopen, rfl⟩
  · rw [if_neg hmem]
    have hok := hnumbered.register_eq hopen hmem m.supply
    dsimp only [numbered, Documented.withOrder] at hok
    rw [hok]
    exact ⟨rfl, hopen, rfl⟩

/-- A merge keeps the first function of every overload and numbers what it keeps. -/
theorem foldl_merging (supply : Anchors) {es : List Documented} (hes : ∀ e ∈ es, Mergeable e) :
    (es.foldl Merging.add { supply := supply }).supply = supply ∧
      (es.foldl Merging.add { supply := supply }).index.frozen = false ∧
      (es.foldl Merging.add { supply := supply }).index.entries =
        Documented.numbered (Documented.firsts es) := by
  induction es using List.reverseRecOn with
  | nil => exact ⟨rfl, rfl, rfl⟩
  | append_singleton es e ih =>
      obtain ⟨hinit, hlast⟩ := List.forall_mem_append.mp hes
      obtain ⟨hsupply, hopen, hentries⟩ := ih hinit
      obtain ⟨hsupply', hopen', hentries'⟩ := Merging.add_eq hopen (List.forall_mem_singleton.mp hlast)
      rw [List.foldl_append, List.foldl_cons, List.foldl_nil]
      refine ⟨hsupply'.trans hsupply, hopen', ?_⟩
      have hkeys : e.signature.key ∈ (Documented.numbered (Documented.firsts es)).map (·.signature.key) ↔
          e.signature.key ∈ es.map (·.signature.key) := by
        rw [Documented.map_numbered (fun _ _ => rfl), Documented.mem_keys_firsts]
      rw [hentries', size, hentries, Documented.firsts_append_singleton]
      simp only [hkeys, Documented.length_numbered]
      split
      · rfl
      · rw [Documented.numbered_append_singleton]

theorem merge_eq (supply : Anchors) {parts : List Index}
    (hparts : ∀ part ∈ parts, ∀ e ∈ part.entries, Mergeable e) :
    (merge supply parts).supply = supply ∧ (merge supply parts).index.frozen = true ∧
      (merge supply parts).index.entries =
        Documented.numbered (Documented.firsts (parts.flatMap (·.entries))) := by
  have hall : ∀ e ∈ parts.flatMap (·.entries), Mergeable e := by
    intro e he
    obtain ⟨part, hpart, he⟩ := List.mem_flatMap.mp he
    exact hparts part hpart e he
  obtain ⟨hsupply, -, hentries⟩ := foldl_merging supply hall
  exact ⟨hsupply, rfl, hentries⟩

end Index

end OverloadDocs
