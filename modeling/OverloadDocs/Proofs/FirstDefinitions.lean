import Mathlib.Data.List.Forall2
import OverloadDocs.Build
import OverloadDocs.Index.Shared
import OverloadDocs.Proofs.Building
import OverloadDocs.Proofs.IndexTables

/-!
What a merge keeps and what it refuses. Of the functions of all parts, one after the other, the first of every
overload is kept and numbered by its place, and each later one is refused with the one that was kept. The parts
stay what they are, because the merge changes only copies of their signatures.
-/

namespace OverloadDocs

namespace Documented

/-- An earlier function of the list is the same overload as the function at a position. -/
def Repeats (fs : List Documented) (p : Documented × Nat) : Prop :=
  ∃ f ∈ fs.take p.2, f.signature.SameOverload p.1.signature

instance (fs : List Documented) (p : Documented × Nat) : Decidable (Repeats fs p) :=
  inferInstanceAs (Decidable (∃ f ∈ fs.take p.2, _))

/-- The functions with whose overload no earlier one comes, in order. -/
def firstDefinitions (fs : List Documented) : List Documented :=
  (fs.zipIdx.filter fun p => ¬ Repeats fs p).map Prod.fst

/-- The functions with whose overload an earlier one comes, in order, each with its position. -/
def repetitions (fs : List Documented) : List (Documented × Nat) := fs.zipIdx.filter fun p => Repeats fs p

/-- Later functions do not count for whether one repeats. -/
theorem repeats_append {fs : List Documented} {p : Documented × Nat} (hp : p ∈ fs.zipIdx) (gs : List Documented) :
    Repeats (fs ++ gs) p ↔ Repeats fs p := by
  have hlt : p.2 < fs.length := by
    have := List.snd_lt_of_mem_zipIdx hp
    omega
  rw [Repeats, Repeats, List.take_append_of_le_length (Nat.le_of_lt hlt)]

theorem repeats_last (fs : List Documented) (f : Documented) :
    Repeats (fs ++ [f]) (f, fs.length) ↔ ∃ g ∈ fs, g.signature.SameOverload f.signature := by
  rw [Repeats, List.take_left]

theorem repetitions_append_singleton (fs : List Documented) (f : Documented) :
    repetitions (fs ++ [f]) =
      if ∃ g ∈ fs, g.signature.SameOverload f.signature then repetitions fs ++ [(f, fs.length)]
      else repetitions fs := by
  have hinit : fs.zipIdx.filter (fun p => Repeats (fs ++ [f]) p) = repetitions fs :=
    List.filter_congr fun p hp => decide_eq_decide.mpr (repeats_append hp [f])
  rw [repetitions, List.zipIdx_append, List.filter_append, hinit, List.zipIdx_singleton, Nat.zero_add]
  simp only [List.filter_cons, List.filter_nil, decide_eq_true_eq, repeats_last]
  split
  · rfl
  · exact List.append_nil _

theorem firstDefinitions_append_singleton (fs : List Documented) (f : Documented) :
    firstDefinitions (fs ++ [f]) =
      if ∃ g ∈ fs, g.signature.SameOverload f.signature then firstDefinitions fs
      else firstDefinitions fs ++ [f] := by
  have hinit : (fs.zipIdx.filter fun p => ¬ Repeats (fs ++ [f]) p).map Prod.fst = firstDefinitions fs := by
    rw [firstDefinitions]
    congr 1
    exact List.filter_congr fun p hp => decide_eq_decide.mpr (not_congr (repeats_append hp [f]))
  rw [firstDefinitions, List.zipIdx_append, List.filter_append, List.map_append, hinit, List.zipIdx_singleton,
    Nat.zero_add]
  simp only [List.filter_cons, List.filter_nil, decide_eq_true_eq, repeats_last, ite_not]
  split
  · exact List.append_nil _
  · rfl

end Documented

namespace Index

open Documented

/-- Among valid functions the key stands for the overload. -/
theorem Mergeable.key_mem_iff {fs : List Documented} (hfs : ∀ f ∈ fs, Mergeable f) {e : Documented}
    (he : Mergeable e) :
    e.signature.key ∈ fs.map (·.signature.key) ↔ ∃ f ∈ fs, f.signature.SameOverload e.signature := by
  rw [List.mem_map]
  refine exists_congr fun f => and_congr_right fun hf => ?_
  refine ⟨fun hkey => ?_, Signature.SameOverload.key_eq⟩
  exact identityKey_injective (hfs f hf).valid.paramTypes he.valid.paramTypes hkey

theorem firstDefinitions_eq_firsts {fs : List Documented} (hfs : ∀ f ∈ fs, Mergeable f) :
    firstDefinitions fs = firsts fs := by
  induction fs using List.reverseRecOn with
  | nil => rfl
  | append_singleton fs f ih =>
      obtain ⟨hinit, hlast⟩ := List.forall_mem_append.mp hfs
      have hkey := (List.forall_mem_singleton.mp hlast).key_mem_iff hinit
      rw [firstDefinitions_append_singleton, firsts_append_singleton, ih hinit]
      simp only [hkey]

/-! ## Merging by value -/

/-- The refusal of a function at a position: it names the function of the index that has the overload, and the
refused one with the number that it would have had. -/
def Refuses (fs : List Documented) (idx : Index) (p : Documented × Nat) (err : RegisterError) : Prop :=
  ∃ e ∈ idx.entries, e.signature.SameOverload p.1.signature ∧
    err = .duplicate e.signature { p.1.signature with order := (firstDefinitions (fs.take p.2)).length }

/-- The index keeps the first functions of every overload, numbered by their places, and the errors are the
refusals of the others, one for each. -/
structure Joins (fs : List Documented) (idx : Index) (errors : List RegisterError) : Prop where
  entries : idx.entries = numbered (firstDefinitions fs)
  errors : List.Forall₂ (Refuses fs idx) (repetitions fs) errors

/-- A refusal stands when more functions come and more are kept. -/
theorem Refuses.mono {fs : List Documented} {idx idx' : Index} {p : Documented × Nat} {err : RegisterError}
    (h : Refuses fs idx p err) (hp : p ∈ repetitions fs) (hentries : idx.entries ⊆ idx'.entries)
    (gs : List Documented) : Refuses (fs ++ gs) idx' p err := by
  obtain ⟨e, he, hsame, herr⟩ := h
  have hlt : p.2 < fs.length := by
    have := List.snd_lt_of_mem_zipIdx (List.mem_of_mem_filter hp)
    omega
  refine ⟨e, hentries he, hsame, ?_⟩
  rw [List.take_append_of_le_length (Nat.le_of_lt hlt)]
  exact herr

theorem Joins.errors_mono {fs : List Documented} {idx idx' : Index} {errors : List RegisterError}
    (h : Joins fs idx errors) (hentries : idx.entries ⊆ idx'.entries) (gs : List Documented) :
    List.Forall₂ (Refuses (fs ++ gs) idx') (repetitions fs) errors := by
  have hall : List.Forall₂ (fun p err => p ∈ repetitions fs ∧ Refuses fs idx p err) (repetitions fs) errors :=
    (List.forall₂_and_left _ _).mpr ⟨fun _ => id, h.errors⟩
  exact hall.imp fun p err hp => hp.2.mono hp.1 hentries gs

theorem Joins.mergeable {fs : List Documented} {idx : Index} {errors : List RegisterError}
    (h : Joins fs idx errors) (hfs : ∀ f ∈ fs, Mergeable f) : ∀ e ∈ idx.entries, Mergeable e := by
  intro e he
  rw [h.entries, firstDefinitions_eq_firsts hfs] at he
  obtain ⟨f, hf, i, rfl⟩ := mem_numbered he
  have hmergeable := hfs f ((firsts_sublist fs).subset hf)
  exact ⟨hmergeable.valid, hmergeable.anchor⟩

/-- An entry whose overload is there already is refused with the one that is there. -/
theorem Merging.add_of_known {m : Merging} {e : Documented} (hopen : m.index.frozen = false) (he : Mergeable e)
    (hknown : e.signature.key ∈ m.index.entries.map (·.signature.key)) :
    ∃ k ∈ m.index.entries, k.signature.key = e.signature.key ∧
      m.add e = { m with errors :=
        m.errors ++ [.duplicate k.signature { e.signature with order := m.index.size }] } := by
  let again : Signature := { e.signature with order := m.index.size }
  have hvalid : again.Valid := he.valid
  obtain ⟨k, hk, hkey, hrefused⟩ := register_of_known hopen hvalid hknown m.supply e.doc
  refine ⟨k, hk, hkey, ?_⟩
  rw [Merging.add, hrefused]

/-- An entry with a new overload is kept behind the others, numbered by its place. -/
theorem Merging.add_of_new {m : Merging} {e : Documented} (hopen : m.index.frozen = false) (he : Mergeable e)
    (hnew : e.signature.key ∉ m.index.entries.map (·.signature.key)) :
    m.add e =
      { m with index := { m.index with entries := m.index.entries ++ [e.withOrder m.index.size] } } := by
  have hnumbered : Mergeable (e.withOrder m.index.size) := ⟨he.valid, he.anchor⟩
  have hok := hnumbered.register_eq hopen hnew m.supply
  dsimp only [withOrder] at hok
  rw [Merging.add, hok]
  rfl

/-- One more function is kept behind the others or refused. -/
theorem Joins.add {fs : List Documented} {m : Merging} {e : Documented} (h : Joins fs m.index m.errors)
    (hopen : m.index.frozen = false) (hfs : ∀ f ∈ fs, Mergeable f) (he : Mergeable e) :
    Joins (fs ++ [e]) (m.add e).index (m.add e).errors := by
  have hkeys : e.signature.key ∈ m.index.entries.map (·.signature.key) ↔
      ∃ f ∈ fs, f.signature.SameOverload e.signature := by
    rw [h.entries, map_numbered (fun _ _ => rfl), firstDefinitions_eq_firsts hfs, mem_keys_firsts,
      he.key_mem_iff hfs]
  have hsize : m.index.size = (firstDefinitions fs).length := by
    rw [size, h.entries, length_numbered]
  by_cases hold : ∃ f ∈ fs, f.signature.SameOverload e.signature
  · obtain ⟨k, hk, hkey, hadd⟩ := Merging.add_of_known hopen he (hkeys.mpr hold)
    have hsame : k.signature.SameOverload e.signature :=
      identityKey_injective (h.mergeable hfs k hk).valid.paramTypes he.valid.paramTypes hkey
    rw [hadd]
    refine ⟨?_, ?_⟩
    · rw [firstDefinitions_append_singleton, if_pos hold]
      exact h.entries
    · rw [repetitions_append_singleton, if_pos hold]
      refine List.rel_append (h.errors_mono (List.Subset.refl _) [e]) (.cons ⟨k, hk, hsame, ?_⟩ .nil)
      rw [List.take_left, ← hsize]
  · rw [Merging.add_of_new hopen he fun hmem => hold (hkeys.mp hmem)]
    refine ⟨?_, ?_⟩
    · rw [firstDefinitions_append_singleton, if_neg hold, numbered_append_singleton, ← h.entries, hsize]
    · rw [repetitions_append_singleton, if_neg hold]
      exact h.errors_mono (List.subset_append_left _ _) [e]

theorem joins_foldl (supply : Anchors) {fs : List Documented} (hfs : ∀ f ∈ fs, Mergeable f) :
    Joins fs (fs.foldl Merging.add { supply := supply }).index (fs.foldl Merging.add { supply := supply }).errors := by
  induction fs using List.reverseRecOn with
  | nil => exact ⟨rfl, .nil⟩
  | append_singleton fs f ih =>
      obtain ⟨hinit, hlast⟩ := List.forall_mem_append.mp hfs
      have hopen := (foldl_merging supply hinit).2.1
      rw [List.foldl_append, List.foldl_cons, List.foldl_nil]
      exact (ih hinit).add hopen hinit (List.forall_mem_singleton.mp hlast)

theorem joins_merge (supply : Anchors) {parts : List Index}
    (hparts : ∀ part ∈ parts, ∀ e ∈ part.entries, Mergeable e) :
    Joins (parts.flatMap (·.entries)) (merge supply parts).index (merge supply parts).errors := by
  have hall : ∀ e ∈ parts.flatMap (·.entries), Mergeable e := by
    intro e he
    obtain ⟨part, hpart, he⟩ := List.mem_flatMap.mp he
    exact hparts part hpart e he
  have h := joins_foldl supply hall
  exact ⟨h.entries, h.errors⟩

theorem mergeable_registers {t : TabledIndex} {supply : Anchors} {s : Option Signature}
    {doc : Option Documentation} {r : Registration} (h : t.Registers supply s doc r)
    (ht : ∀ e ∈ t.entries, Mergeable e) : ∀ e ∈ r.index.entries, Mergeable e := by
  cases h with
  | frozen => exact ht
  | absent => exact ht
  | invalid => exact ht
  | duplicate => exact ht
  | entered hopen hs hvalid hnew =>
      exact List.forall_mem_append.mpr ⟨ht, List.forall_mem_singleton.mpr ⟨hvalid, anchored_ne _ _⟩⟩

/-- What has been built by registrations can be merged. -/
theorem mergeable_afterCalls (supply : Anchors) (calls : List IndexCall) :
    ∀ e ∈ (TabledIndex.afterCalls supply calls).1.entries, Mergeable e := by
  induction calls using List.reverseRecOn with
  | nil => exact fun _ => nofun
  | append_singleton calls call ih =>
      rw [TabledIndex.afterCalls, List.foldl_append, List.foldl_cons, List.foldl_nil]
      cases call with
      | freeze => exact ih
      | register s doc =>
          have hin := TabledIndex.inStep_afterCalls supply calls
          exact mergeable_registers (hin.registers (TabledIndex.afterCalls supply calls).2 s doc) ih

end Index

/-! ## Merging indexes that share signatures -/

namespace SharedIndex

variable {kept kept' : List Signature}

/-- Every entry has its signature. -/
def Placed (kept : List Signature) (x : SharedIndex) : Prop := ∀ e ∈ x.entries, e.place < kept.length

instance (kept : List Signature) (x : SharedIndex) : Decidable (x.Placed kept) :=
  inferInstanceAs (Decidable (∀ e ∈ x.entries, _))

theorem Placed.mono {x : SharedIndex} (h : x.Placed kept) (hgrown : kept <+: kept') : x.Placed kept' :=
  fun e he => Nat.lt_of_lt_of_le (h e he) hgrown.length_le

/-- New places do not count for what has its place. -/
theorem entryAt?_grown {e : SharedEntry} (he : e.place < kept.length) (hgrown : kept <+: kept') :
    entryAt? kept' e = entryAt? kept e := by
  obtain ⟨more, rfl⟩ := hgrown
  rw [entryAt?, entryAt?, List.getElem?_append_left he]

theorem view_grown {x : SharedIndex} (h : x.Placed kept) (hgrown : kept <+: kept') :
    x.view kept' = x.view kept := by
  rw [view, view, List.filterMap_congr fun e he => entryAt?_grown (h e he) hgrown]

theorem length_entries_view {x : SharedIndex} (h : x.Placed kept) :
    (x.view kept).entries.length = x.entries.length := by
  have hall : ∀ e ∈ x.entries, (entryAt? kept e).isSome := by
    intro e he
    rw [entryAt?, List.getElem?_eq_getElem (h e he)]
    rfl
  rw [view, List.length_filterMap_eq_countP, List.countP_eq_length.mpr hall]

end SharedIndex

namespace SharedMerging

open SharedIndex

/-- The merge stands for a merge by value, and all that was kept at its start is still there as it was. -/
structure StandsFor (m : SharedMerging) (start : List Signature) (v : Index.Merging) : Prop where
  grown : start <+: m.kept
  placed : m.index.Placed m.kept
  index : m.index.view m.kept = v.index
  supply : m.supply = v.supply
  errors : m.errors = v.errors

/-- Taking an entry copies its signature, and changes the copy only. -/
theorem StandsFor.add {m : SharedMerging} {start : List Signature} {v : Index.Merging} (h : m.StandsFor start v)
    {e : SharedEntry} {f : Documented} (he : entryAt? start e = some f) : (m.add e).StandsFor start (v.add f) := by
  obtain ⟨s, hs, rfl⟩ := Option.map_eq_some_iff.mp he
  have hkept : m.kept[e.place]? = some s := by
    obtain ⟨more, hmore⟩ := h.grown
    rw [← hmore, List.getElem?_append_left (List.getElem?_eq_some_iff.mp hs).1]
    exact hs
  let copy : Signature := { s with order := v.index.size }
  have hlength : m.index.entries.length = v.index.size := by
    rw [Index.size, ← h.index, length_entries_view h.placed]
  have hmore : m.kept <+: m.kept ++ [copy] := List.prefix_append _ _
  have hview : m.index.view (m.kept ++ [copy]) = v.index := (view_grown h.placed hmore).trans h.index
  have hcopy : (m.kept ++ [copy])[m.kept.length]? = some copy := List.getElem?_concat_length
  rw [SharedMerging.add, hkept, Index.Merging.add]
  dsimp only
  rw [hlength, SharedIndex.register, hview, hcopy, h.supply]
  cases hregister : v.index.register v.supply (some copy) e.doc with
  | error err =>
      dsimp only [Except.map]
      exact ⟨h.grown.trans hmore, h.placed.mono hmore, hview, rfl, congrArg (· ++ [err]) h.errors⟩
  | ok next =>
      obtain ⟨-, -, -, hindex, hsupply⟩ := Index.register_eq_ok.mp hregister
      have hmodify : (m.kept ++ [copy]).modify m.kept.length (fun s => (Index.anchored v.supply s).1) =
          m.kept ++ [(Index.anchored v.supply copy).1] := by
        simp [List.modify_eq_take_drop]
      have hgrown : m.kept <+: m.kept ++ [(Index.anchored v.supply copy).1] := List.prefix_append _ _
      dsimp only [Except.map]
      rw [hmodify]
      refine ⟨h.grown.trans hgrown, ?_, ?_, rfl, h.errors⟩
      · refine List.forall_mem_append.mpr ⟨h.placed.mono hgrown, List.forall_mem_singleton.mpr ?_⟩
        rw [List.length_append, List.length_singleton]
        exact Nat.lt_succ_self _
      · have hlast : entryAt? (m.kept ++ [(Index.anchored v.supply copy).1]) ⟨m.kept.length, e.doc⟩ =
            some ⟨(Index.anchored v.supply copy).1, e.doc⟩ := by
          rw [entryAt?, List.getElem?_concat_length, Option.map_some]
        have hold := (view_grown h.placed hgrown).trans h.index
        rw [hindex, ← hold]
        simp only [view, List.filterMap_append, List.filterMap_cons, hlast, List.filterMap_nil]

theorem StandsFor.foldl_add {m : SharedMerging} {start : List Signature} {v : Index.Merging}
    (h : m.StandsFor start v) {es : List SharedEntry} (hes : ∀ e ∈ es, e.place < start.length) :
    (es.foldl SharedMerging.add m).StandsFor start ((es.filterMap (entryAt? start)).foldl Index.Merging.add v) := by
  induction es generalizing m v with
  | nil => exact h
  | cons e es ih =>
      obtain ⟨hhead, htail⟩ := List.forall_mem_cons.mp hes
      have he : entryAt? start e = some ⟨start[e.place], e.doc⟩ := by
        rw [entryAt?, List.getElem?_eq_getElem hhead, Option.map_some]
      rw [List.filterMap_cons_some he, List.foldl_cons, List.foldl_cons]
      exact ih (h.add he) htail

theorem StandsFor.foldl_addPart {m : SharedMerging} {start : List Signature} {v : Index.Merging}
    (h : m.StandsFor start v) {parts : List (Option SharedIndex)}
    (hparts : ∀ part, some part ∈ parts → part.Placed start) :
    (parts.foldl addPart m).StandsFor start
      (((parts.filterMap id).flatMap fun part => (part.view start).entries).foldl Index.Merging.add v) := by
  induction parts generalizing m v with
  | nil => exact h
  | cons part parts ih =>
      have htail : ∀ p, some p ∈ parts → p.Placed start := fun p hp => hparts p (List.mem_cons_of_mem _ hp)
      rw [List.foldl_cons]
      cases part with
      | none =>
          rw [List.filterMap_cons_none rfl]
          exact ih h htail
      | some p =>
          rw [List.filterMap_cons_some (f := id) rfl, List.flatMap_cons, List.foldl_append]
          exact ih (h.foldl_add (hparts p List.mem_cons_self)) htail

end SharedMerging

/-- An index that registrations have led to. -/
def Index.Built (idx : Index) : Prop :=
  ∃ supply calls, idx = (TabledIndex.afterCalls supply calls).1.toIndex

theorem Index.Built.mergeable {idx : Index} (h : idx.Built) : ∀ e ∈ idx.entries, Mergeable e := by
  obtain ⟨supply, calls, rfl⟩ := h
  exact mergeable_afterCalls supply calls

namespace SharedIndex

/-- A merge of indexes that share signatures is a merge by value, and adds places only. -/
theorem view_merge {kept : List Signature} {parts : List (Option SharedIndex)}
    (hparts : ∀ part, some part ∈ parts → part.Placed kept) (supply : Anchors) :
    kept <+: (merge kept supply parts).kept ∧
      (merge kept supply parts).index.view (merge kept supply parts).kept =
        (Index.merge supply ((parts.filterMap id).map (·.view kept))).index ∧
      (merge kept supply parts).errors =
        (Index.merge supply ((parts.filterMap id).map (·.view kept))).errors := by
  have hstart : SharedMerging.StandsFor { kept := kept, supply := supply } kept { supply := supply } :=
    ⟨List.prefix_refl _, fun _ => nofun, rfl, rfl, rfl⟩
  obtain ⟨hgrown, -, hindex, -, herrors⟩ := hstart.foldl_addPart hparts
  rw [Index.merge, List.flatMap_map]
  exact ⟨hgrown, congrArg Index.freeze hindex, herrors⟩

/-- What a merge leaves behind: a frozen index of the first definitions, the refusals of the others, and the parts
as they were. -/
structure MergeLaws (kept : List Signature) (parts : List (Option SharedIndex)) (m : SharedMerging) : Prop where
  frozen : (m.index.view m.kept).frozen = true
  joins : Index.Joins ((parts.filterMap id).flatMap fun part => (part.view kept).entries) (m.index.view m.kept)
    m.errors
  unchanged : ∀ part, some part ∈ parts → part.view m.kept = part.view kept

end SharedIndex

/-- What a merge of builds gives: the functions of the merged index, the errors of the files before those of the
merge, and the warnings of the files. -/
structure FileBuild.MergeLaws (builds : List (Option FileBuild)) (idx : Index) (result : BuildResult) : Prop where
  frozen : idx.frozen = true
  functions : result.functions = idx.entries
  errors : ∃ refused, Index.Joins ((builds.filterMap id).flatMap (·.index.entries)) idx refused ∧
    result.errors = (builds.filterMap id).flatMap (·.result.errors) ++ refused.map .refused
  warnings : result.warnings = (builds.filterMap id).flatMap (·.result.warnings)

/-- Merging keeps the first function of every overload and refuses each later one with the one that is kept,
whichever parts are missing or come again, and the parts stay as they are. Builds are merged in the same way. -/
theorem merge_keeps_first_definitions {kept : List Signature} {parts : List (Option SharedIndex)}
    {builds : List (Option FileBuild)} (supply : Anchors)
    (hparts : ∀ part, some part ∈ parts → part.Placed kept ∧ (part.view kept).Built)
    (hbuilds : ∀ build, some build ∈ builds → build.index.Built) :
    SharedIndex.MergeLaws kept parts (SharedIndex.merge kept supply parts) ∧
      FileBuild.MergeLaws builds (FileBuild.mergePresent supply builds).1
        (FileBuild.mergePresent supply builds).2.1 := by
  refine ⟨?_, ?_⟩
  · obtain ⟨hgrown, hview, herrors⟩ := SharedIndex.view_merge (fun part hpart => (hparts part hpart).1) supply
    have hmergeable : ∀ part ∈ (parts.filterMap id).map (·.view kept), ∀ e ∈ part.entries, Index.Mergeable e := by
      intro idx hidx
      obtain ⟨part, hpart, rfl⟩ := List.mem_map.mp hidx
      exact (hparts part (by simpa using hpart)).2.mergeable
    have hjoins := Index.joins_merge supply hmergeable
    rw [List.flatMap_map, ← hview, ← herrors] at hjoins
    exact ⟨rfl, hjoins, fun part hpart => SharedIndex.view_grown (hparts part hpart).1 hgrown⟩
  · have hmergeable : ∀ part ∈ (builds.filterMap id).map (·.index), ∀ e ∈ part.entries, Index.Mergeable e := by
      intro idx hidx
      obtain ⟨build, hbuild, rfl⟩ := List.mem_map.mp hidx
      exact (hbuilds build (by simpa using hbuild)).mergeable
    have hjoins := Index.joins_merge supply hmergeable
    rw [List.flatMap_map] at hjoins
    exact ⟨rfl, rfl, ⟨_, hjoins, rfl⟩, rfl⟩

/-- Two files declare the same overload; the first of them is merged twice, and one part and one build are
missing. -/
theorem merge_of_repeated_part :
    let f : Signature := { name := "f", params := [{ type := .vector }], source := ⟨"a.stan", 1, 1⟩, anchor := "a1" }
    let g : Signature := { name := "g", order := 1, source := ⟨"a.stan", 3, 3⟩, anchor := "a2" }
    let again : Signature := { f with source := ⟨"b.stan", 7, 7⟩, anchor := "b1" }
    let first : Index := { entries := [⟨f, { summary := "One." }⟩, ⟨g, {}⟩] }
    let second : Index := { entries := [⟨again, { summary := "Two." }⟩], frozen := true }
    let parts : List (Option SharedIndex) :=
      [some { entries := [⟨0, { summary := "One." }⟩, ⟨1, {}⟩] }, none,
        some { entries := [⟨2, { summary := "Two." }⟩], frozen := true },
        some { entries := [⟨0, { summary := "One." }⟩, ⟨1, {}⟩] }]
    let builds : List (Option FileBuild) :=
      [none, some { file := "a.stan", index := first }, some { file := "b.stan", index := second }]
    let m := SharedIndex.merge [f, g, again] {} parts
    (∀ part, some part ∈ parts → part.Placed [f, g, again] ∧ (part.view [f, g, again]).Built) ∧
      (∀ build, some build ∈ builds → build.index.Built) ∧
      m.errors.map (·.message) =
        ["duplicate definition of f(vector) at b.stan:7 (first defined at a.stan:1)",
          "duplicate definition of f(vector) at a.stan:1 (first defined at a.stan:1)",
          "duplicate definition of g() at a.stan:3 (first defined at a.stan:3)"] ∧
      SharedIndex.MergeLaws [f, g, again] parts m ∧
      FileBuild.MergeLaws builds (FileBuild.mergePresent {} builds).1 (FileBuild.mergePresent {} builds).2.1 := by
  intro f g again first second parts builds m
  have hfirst : first.Built :=
    ⟨{}, [.register (some f) (some { summary := "One." }), .register (some g) none], by decide +kernel⟩
  have hsecond : second.Built :=
    ⟨{}, [.register (some again) (some { summary := "Two." }), .freeze], by decide +kernel⟩
  have hparts : ∀ part, some part ∈ parts → part.Placed [f, g, again] ∧ (part.view [f, g, again]).Built := by
    intro part hpart
    simp only [parts, List.mem_cons, Option.some.injEq, reduceCtorEq, false_or, List.not_mem_nil, or_false] at hpart
    rcases hpart with rfl | rfl | rfl
    · exact ⟨by decide, hfirst⟩
    · exact ⟨by decide, hsecond⟩
    · exact ⟨by decide, hfirst⟩
  have hbuilds : ∀ build, some build ∈ builds → build.index.Built := by
    intro build hbuild
    simp only [builds, List.mem_cons, Option.some.injEq, reduceCtorEq, false_or, List.not_mem_nil, or_false] at hbuild
    rcases hbuild with rfl | rfl
    · exact hfirst
    · exact hsecond
  exact ⟨hparts, hbuilds, by decide +kernel, merge_keeps_first_definitions {} hparts hbuilds⟩

end OverloadDocs
