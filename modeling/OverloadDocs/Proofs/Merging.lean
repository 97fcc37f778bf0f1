import OverloadDocs.ProjectIndex
import OverloadDocs.Proofs.Building
import OverloadDocs.Proofs.Extent
import OverloadDocs.Proofs.Storing

/-!
From texts to merged functions. Reading sources builds each from its text, and merging the builds yields the
functions that the texts declare together: the first of every overload, numbered in order, source by source.
-/

namespace OverloadDocs

/-! ## Groups -/

/-- The elements stand in groups, one for each of some names in order. -/
def Grouped {α β : Type} (name : α → β) : List β → List α → Prop
  | [], xs => xs = []
  | b :: bs, xs => ∃ first rest, xs = first ++ rest ∧ (∀ x ∈ first, name x = b) ∧ Grouped name bs rest

namespace Grouped

variable {α β : Type} {name : α → β} {bs : List β} {xs : List α}

theorem name_mem (h : Grouped name bs xs) : ∀ x ∈ xs, name x ∈ bs := by
  induction bs generalizing xs with
  | nil =>
      rw [Grouped] at h
      rw [h]
      exact fun _ => nofun
  | cons b bs ih =>
      obtain ⟨first, rest, rfl, hfirst, hrest⟩ := h
      intro x hx
      rcases List.mem_append.mp hx with hx | hx
      · rw [hfirst x hx]
        exact List.mem_cons_self
      · exact List.mem_cons_of_mem _ (ih hrest x hx)

theorem sublist {ys : List α} (h : Grouped name bs xs) (hsub : ys.Sublist xs) : Grouped name bs ys := by
  induction bs generalizing xs ys with
  | nil =>
      rw [Grouped] at h ⊢
      exact List.sublist_nil.mp (h ▸ hsub)
  | cons b bs ih =>
      obtain ⟨first, rest, rfl, hfirst, hrest⟩ := h
      obtain ⟨ys₁, ys₂, rfl, h₁, h₂⟩ := List.sublist_append_iff.mp hsub
      exact ⟨ys₁, ys₂, rfl, fun x hx => hfirst x (h₁.subset hx), ih hrest h₂⟩

/-- Groups are a matter of the names alone. -/
theorem of_map_eq {ys : List α} (h : Grouped name bs xs) (heq : ys.map name = xs.map name) :
    Grouped name bs ys := by
  induction bs generalizing xs ys with
  | nil =>
      rw [Grouped] at h ⊢
      rw [h] at heq
      exact List.map_eq_nil_iff.mp heq
  | cons b bs ih =>
      obtain ⟨first, rest, rfl, hfirst, hrest⟩ := h
      rw [List.map_append] at heq
      obtain ⟨ys₁, ys₂, rfl, h₁, h₂⟩ := List.map_eq_append_iff.mp heq
      refine ⟨ys₁, ys₂, rfl, fun y hy => ?_, ih hrest h₂⟩
      obtain ⟨x, hx, hname⟩ := List.mem_map.mp (h₁ ▸ List.mem_map_of_mem hy)
      rw [← hname, hfirst x hx]

theorem flatMap {γ : Type} {cs : List γ} {key : γ → β} {group : γ → List α}
    (h : ∀ c ∈ cs, ∀ x ∈ group c, name x = key c) : Grouped name (cs.map key) (cs.flatMap group) := by
  induction cs with
  | nil => exact rfl
  | cons c cs ih =>
      obtain ⟨hhead, htail⟩ := List.forall_mem_cons.mp h
      exact ⟨group c, cs.flatMap group, List.flatMap_cons, hhead, ih htail⟩

/-- The groups of different names, one after the other, are the whole. -/
theorem flatMap_filter [DecidableEq β] (h : Grouped name bs xs) (hbs : bs.Nodup) :
    (bs.flatMap fun b => xs.filter (name · = b)) = xs := by
  induction bs generalizing xs with
  | nil =>
      rw [Grouped] at h
      rw [h]
      rfl
  | cons b bs ih =>
      obtain ⟨first, rest, rfl, hfirst, hrest⟩ := h
      obtain ⟨hnew, hbs⟩ := List.nodup_cons.mp hbs
      have hhead : (first ++ rest).filter (name · = b) = first := by
        rw [List.filter_append, List.filter_eq_self.mpr (by simpa using hfirst),
          List.filter_eq_nil_iff.mpr, List.append_nil]
        intro x hx
        rw [decide_eq_true_eq]
        rintro rfl
        exact hnew (hrest.name_mem x hx)
      have htail : ∀ c ∈ bs, (first ++ rest).filter (name · = c) = rest.filter (name · = c) := by
        intro c hc
        rw [List.filter_append, List.filter_eq_nil_iff.mpr, List.nil_append]
        intro x hx
        rw [decide_eq_true_eq, hfirst x hx]
        rintro rfl
        exact hnew hc
      have hgroups : (bs.flatMap fun c => (first ++ rest).filter (name · = c)) = rest := by
        rw [List.flatMap_congr htail]
        exact ih hrest hbs
      rw [List.flatMap_cons, hhead, hgroups]

end Grouped

/-! ## Reading -/

/-- A path relative to a root with the text of the file there, if it can be read. -/
def Tree.textAt? (tree : Tree) (root path : String) : Option (String × String) :=
  (tree.readText (Path.join [root, path])).toOption.map (path, ·)

/-- The texts of the files at paths, as far as they can be read. -/
def Tree.textsAt (tree : Tree) (root : String) (paths : List String) : List (String × String) :=
  paths.filterMap (tree.textAt? root)

/-- A source has been built from its text. -/
def SourceFile.Built (source : SourceFile) : Prop :=
  ∃ supply, source.build = (FileBuild.ofSource supply source.path source.text).1

def SourceFile.texts (sources : List SourceFile) : List (String × String) :=
  sources.map fun source => (source.path, source.text)

def SourceState.files (states : List SourceState) : List SourceFile := states.filterMap (·.file?)

namespace SourceState

/-- What is read is built, and is what the files hold. -/
structure Read (tree : Tree) (root : String) (paths : List String) (states : List SourceState) : Prop where
  visited : states.map (·.path) = paths
  built : ∀ state ∈ states, ∀ source, state.outcome = .ok source →
    source.path = state.path ∧ source.Built
  texts : SourceFile.texts (files states) = tree.textsAt root paths

theorem read_readAll (tree : Tree) (root : String) (supply : Anchors) (paths : List String) :
    Read tree root paths (readAll tree root supply paths).1 := by
  induction paths generalizing supply with
  | nil => exact ⟨rfl, fun _ => nofun, rfl⟩
  | cons path paths ih =>
      unfold readAll
      cases htext : tree.readText (Path.join [root, path]) with
      | error f =>
          obtain ⟨hpaths, hbuilt, htexts⟩ := ih supply
          refine ⟨by simp [hpaths], List.forall_mem_cons.mpr ⟨fun _ => nofun, hbuilt⟩, ?_⟩
          have hskip : tree.textAt? root path = none := by
            rw [Tree.textAt?, htext]
            rfl
          rw [Tree.textsAt, List.filterMap_cons_none hskip]
          exact htexts
      | ok text =>
          obtain ⟨hpaths, hbuilt, htexts⟩ := ih (FileBuild.ofSource supply path text).2
          refine ⟨by simp [hpaths], List.forall_mem_cons.mpr ⟨?_, hbuilt⟩, ?_⟩
          · rintro source hsource
            obtain rfl := Except.ok.inj hsource
            exact ⟨rfl, supply, rfl⟩
          · have htake : tree.textAt? root path = some (path, text) := by
              rw [Tree.textAt?, htext]
              rfl
            rw [Tree.textsAt, List.filterMap_cons_some htake]
            exact congrArg ((path, text) :: ·) htexts

theorem exists_readAll (tree : Tree) (root : String) (supply : Anchors) (paths : List String) :
    ∃ states supply', readAll tree root supply paths = (states, supply') := ⟨_, _, rfl⟩

variable {tree : Tree} {root : String} {paths : List String} {states : List SourceState}

theorem read_of_eq {supply supply' : Anchors} (h : readAll tree root supply paths = (states, supply')) :
    Read tree root paths states := by
  have hread := read_readAll tree root supply paths
  rwa [h] at hread

theorem mem_files {source : SourceFile} :
    source ∈ files states ↔ ∃ state ∈ states, state.outcome = .ok source := by
  rw [files, List.mem_filterMap]
  refine exists_congr fun state => and_congr_right fun _ => ?_
  rw [file?]
  cases state.outcome with
  | error f =>
      constructor
      · intro h
        cases h
      · intro h
        cases h
  | ok source' => exact ⟨fun h => congrArg _ (Option.some.inj h), fun h => congrArg _ (Except.ok.inj h)⟩

theorem Read.built_files (h : Read tree root paths states) : ∀ source ∈ files states, source.Built := by
  intro source hsource
  obtain ⟨state, hstate, houtcome⟩ := mem_files.mp hsource
  exact (h.built state hstate source houtcome).2

theorem Read.paths_subset (h : Read tree root paths states) : SourceFile.paths (files states) ⊆ paths := by
  intro path hpath
  obtain ⟨source, hsource, rfl⟩ := List.mem_map.mp hpath
  obtain ⟨state, hstate, houtcome⟩ := mem_files.mp hsource
  rw [← h.visited, (h.built state hstate source houtcome).1]
  exact List.mem_map_of_mem hstate

/-- When every path can be read each has its source. -/
theorem Read.paths_files (h : Read tree root paths states)
    (hread : ∀ path ∈ paths, ∃ text, tree.readText (Path.join [root, path]) = .ok text) :
    SourceFile.paths (files states) = paths := by
  have hpaths : SourceFile.paths (files states) = (SourceFile.texts (files states)).map Prod.fst := by
    rw [SourceFile.paths, SourceFile.texts, List.map_map]
    rfl
  have hall : ∀ path ∈ paths, (tree.textAt? root path).map Prod.fst = some path := by
    intro path hpath
    obtain ⟨text, htext⟩ := hread path hpath
    rw [Tree.textAt?, htext]
    rfl
  rw [hpaths, h.texts, Tree.textsAt, List.map_filterMap, List.filterMap_congr hall, List.filterMap_some]

end SourceState

/-! ## Merging -/

/-- The functions that texts declare together, without anchors. -/
def declaredBy (texts : List (String × String)) : List Documented :=
  Documented.numbered (Documented.firsts (texts.flatMap fun text =>
    (FileBuild.ofSource {} text.1 text.2).1.index.entries.map Documented.unanchored))

/-- The functions that the builds of sources are merged to. -/
def SourceFile.merged (supply : Anchors) (sources : List SourceFile) : List Documented :=
  (FileBuild.merge supply (sources.map (·.build))).2.1.functions

/-- A function as merges of sources yield it. -/
structure SourceFile.Declares (source : SourceFile) (f : Documented) : Prop where
  wellFormed : f.signature.WellFormed
  file : f.signature.source.file = source.path
  anchor : f.signature.anchor ≠ ""
  positions : f.doc.paramDocs.Within f.signature.params.length
  extent : f.signature.params.length ≤ source.text.length + 1

namespace SourceFile

theorem Built.declares {source : SourceFile} (h : source.Built) :
    ∀ e ∈ source.build.index.entries, source.Declares e := by
  obtain ⟨supply, hbuild⟩ := h
  intro e he
  rw [hbuild] at he
  obtain ⟨hs, hfile, hanchor, hpositions, raw, hraw, hspelled⟩ := FileBuild.entry_ofSource _ _ _ e he
  have htext := Source.length_declaration_le hraw
  have hparams := Signature.length_params_le hspelled
  exact ⟨hs, hfile, hanchor, hpositions, by omega⟩

theorem Declares.withOrder {source : SourceFile} {f : Documented} (h : source.Declares f) (i : Int) :
    source.Declares (f.withOrder i) :=
  ⟨⟨h.wellFormed.name, h.wellFormed.paramNames, h.wellFormed.paramTypes, h.wellFormed.result⟩, h.file,
    h.anchor, h.positions, h.extent⟩

variable {sources : List SourceFile}

def entries (sources : List SourceFile) : List Documented := sources.flatMap (·.build.index.entries)

theorem merged_eq (supply : Anchors) (hbuilt : ∀ source ∈ sources, source.Built) :
    merged supply sources = Documented.numbered (Documented.firsts (entries sources)) := by
  have hparts : ∀ part ∈ (sources.map (·.build)).map (·.index), ∀ e ∈ part.entries,
      Index.Mergeable e := by
    intro part hpart e he
    obtain ⟨build, hbuild, rfl⟩ := List.mem_map.mp hpart
    obtain ⟨source, hsource, rfl⟩ := List.mem_map.mp hbuild
    have h := (hbuilt source hsource).declares e he
    exact ⟨h.wellFormed.valid, h.anchor⟩
  have h := (Index.merge_eq supply hparts).2.2
  rw [List.map_map, List.flatMap_map] at h
  rw [merged, FileBuild.merge, entries, ← List.map_map] at *
  exact h

theorem nodup_keys_merged (supply : Anchors) (hbuilt : ∀ source ∈ sources, source.Built) :
    ((merged supply sources).map (·.signature.key)).Nodup := by
  rw [merged_eq supply hbuilt, Documented.map_numbered (fun _ _ => rfl)]
  exact Documented.nodup_keys_firsts _

theorem pairwise_order_merged (supply : Anchors) (hbuilt : ∀ source ∈ sources, source.Built) :
    (merged supply sources).Pairwise (·.signature.order < ·.signature.order) := by
  rw [merged_eq supply hbuilt]
  exact Documented.pairwise_order_numbered _

/-- Every merged function is declared by a source. -/
theorem declares_merged (supply : Anchors) (hbuilt : ∀ source ∈ sources, source.Built) :
    ∀ f ∈ merged supply sources, ∃ source ∈ sources, source.Declares f := by
  intro f hf
  rw [merged_eq supply hbuilt] at hf
  obtain ⟨e, he, i, rfl⟩ := Documented.mem_numbered hf
  obtain ⟨source, hsource, he⟩ := List.mem_flatMap.mp ((Documented.firsts_sublist _).subset he)
  exact ⟨source, hsource, ((hbuilt source hsource).declares e he).withOrder i⟩

theorem file_mem_of_merged (supply : Anchors) (hbuilt : ∀ source ∈ sources, source.Built) :
    ∀ f ∈ merged supply sources, f.signature.source.file ∈ paths sources := by
  intro f hf
  obtain ⟨source, hsource, hf⟩ := declares_merged supply hbuilt f hf
  exact hf.file ▸ List.mem_map_of_mem hsource

/-- The merged functions stand source by source. -/
theorem flatMap_inFile_merged (supply : Anchors) (hbuilt : ∀ source ∈ sources, source.Built)
    (hpaths : (paths sources).Nodup) :
    (sources.flatMap fun source => Documented.inFile source.path (merged supply sources)) =
      merged supply sources := by
  have hentries : Grouped (·.signature.source.file) (paths sources) (entries sources) :=
    Grouped.flatMap fun source hsource e he => ((hbuilt source hsource).declares e he).file
  have hfirsts := hentries.sublist (Documented.firsts_sublist _)
  have hmerged : Grouped (·.signature.source.file) (paths sources) (merged supply sources) := by
    rw [merged_eq supply hbuilt]
    exact hfirsts.of_map_eq (Documented.map_numbered (fun _ _ => rfl) _)
  have h := hmerged.flatMap_filter hpaths
  rw [paths, List.flatMap_map] at h
  exact h

/-- Apart from the anchors the merged functions are those that the texts declare. -/
theorem merged_unanchored (supply : Anchors) (hbuilt : ∀ source ∈ sources, source.Built) :
    (merged supply sources).map Documented.unanchored = declaredBy (texts sources) := by
  have hentries : (entries sources).map Documented.unanchored = (texts sources).flatMap fun text =>
      (FileBuild.ofSource {} text.1 text.2).1.index.entries.map Documented.unanchored := by
    rw [entries, texts, List.map_flatMap, List.flatMap_map]
    refine List.flatMap_congr fun source hsource => ?_
    obtain ⟨supply', hbuild⟩ := hbuilt source hsource
    rw [hbuild]
    exact (FileBuild.alike_ofSource supply' {} source.path source.text).1.entries
  rw [merged_eq supply hbuilt, declaredBy, ← hentries, Documented.firsts_map Documented.unanchored (fun _ => rfl),
    Documented.numbered_map_unanchored]

end SourceFile

end OverloadDocs
