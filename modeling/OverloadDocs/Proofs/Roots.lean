import OverloadDocs.Proofs.CleanPaths
import OverloadDocs.Proofs.Isolation

/-!
Roots. The clean path of an absolute one names its place in one way only, so that projects of different clean
paths have different roots. A run over one root then leaves what can be loaded of any other as it was, and a
failed one leaves what can be loaded at all. Stored functions have their anchors, so that loading them takes
none from the supply.
-/

namespace OverloadDocs

theorem Path.fromTop_clean {path : String} (hpath : isAbsolute path = true) : fromTop (clean path) = clean path := by
  have habsolute : isAbsolute (clean path) = true := (isClean_cleanElements path).isAbsolute_ofElements.trans hpath
  rw [fromTop, absolute, if_pos habsolute, clean_clean]

/-! ## Loading anchored rows -/

theorem FunctionRow.anchor_of_toDocumented {row : FunctionRow} {f : Documented}
    (h : row.toDocumented = .ok f) : f.signature.anchor = row.anchor := by
  rw [toDocumented] at h
  cases hsignature : Signature.parse row.signature row.order with
  | error cause =>
      rw [hsignature] at h
      cases h
  | ok sig =>
      rw [hsignature] at h
      dsimp only at h
      cases hdoc : Documentation.ofText? row.docJson with
      | none =>
          rw [hdoc] at h
          cases h
      | some doc =>
          rw [hdoc] at h
          obtain rfl := Except.ok.inj h
          rfl

namespace Index

/-- A signature with its anchor is registered without a look at the supply. -/
theorem register_supply (idx : Index) {sig : Signature} (hsig : sig.anchor ≠ "") (doc : Documentation)
    (supply supply' : Anchors) :
    idx.register supply' (some sig) doc =
      (idx.register supply (some sig) doc).map fun registered => (registered.1, supply') := by
  unfold register
  simp only [anchored_of_ne hsig]
  split
  · rfl
  · split
    · rfl
    · split
      · rfl
      · rfl

theorem addRows_supply {rows : List FunctionRow} (hrows : ∀ row ∈ rows, row.anchor ≠ "") (idx : Index)
    (supply supply' : Anchors) :
    idx.addRows supply' rows = (idx.addRows supply rows).map fun loaded => (loaded.1, supply') := by
  induction rows generalizing idx supply with
  | nil => rfl
  | cons row rows ih =>
      obtain ⟨hrow, hrest⟩ := List.forall_mem_cons.mp hrows
      rw [addRows, addRows]
      cases hread : row.toDocumented with
      | error e => rfl
      | ok f =>
          have hanchor : f.signature.anchor ≠ "" := by rwa [FunctionRow.anchor_of_toDocumented hread]
          dsimp only
          rw [idx.register_supply hanchor f.doc supply supply']
          cases idx.register supply (some f.signature) f.doc with
          | error e => rfl
          | ok registered => exact ih hrest registered.1 registered.2

end Index

namespace Store

/-- Loading takes no anchor from the supply. -/
theorem Anchored.loadIndex_supply {s : Store} (hs : s.Anchored) (root : String) (supply supply' : Anchors) :
    s.loadIndex supply' root = (s.loadIndex supply root).map fun loaded => (loaded.1, supply') := by
  rw [loadIndex, loadIndex]
  dsimp only
  cases s.project? (Path.fromTop root) with
  | none => rfl
  | some p =>
      have hrows : ∀ row ∈ s.functionsOf p.id, row.anchor ≠ "" := by
        intro row hrow
        obtain ⟨stored, hstored, rfl⟩ := mem_listed.mp hrow
        exact hs stored (List.mem_of_mem_filter hstored)
      dsimp only
      rw [Index.addRows_supply hrows {} supply supply']
      cases Index.addRows {} supply (s.functionsOf p.id) <;> rfl

/-! ## Other roots -/

/-- A run over one root leaves what can be loaded of another as it was. -/
theorem Consistent.loadIndex_indexProject_of_ne {s : Store} (hs : s.Consistent) {root other : String}
    (hne : Path.fromTop other ≠ Path.fromTop root) (supply supply' : Anchors) (tree : Tree)
    (options : IndexOptions) :
    (s.indexProject supply tree root options).store.loadIndex supply' other = s.loadIndex supply' other := by
  obtain ⟨hs', -, hspares⟩ := (writes_indexProject supply tree options root hs).run hs
  rw [loadIndex, loadIndex]
  dsimp only
  rw [hspares.project?_eq hne]
  cases hproject : s.project? (Path.fromTop other) with
  | none => rfl
  | some q =>
      obtain ⟨hq, hroot⟩ := hs.project?_eq_some.mp hproject
      dsimp only
      rw [hspares.functionsOf_eq hs hs' hq (hroot ▸ hne)]

/-- A project that is added takes no place that another one has. -/
theorem project?_withProject {s : Store} {root other : String} {p : Project} (hp : s.project? other = some p) :
    (s.withProject root).project? other = some p := by
  unfold withProject
  split
  · exact hp
  · unfold project? at hp ⊢
    rw [List.find?_append, hp, Option.some_or]

/-- A run that fails leaves everything that could be loaded as it was. -/
theorem loadIndex_indexProject_of_error {s : Store} {supply : Anchors} {tree : Tree} {root : String}
    {options : IndexOptions} {e : IndexError}
    (houtcome : (s.indexProject supply tree root options).outcome = .error e) {other : String}
    {supply' : Anchors} {loaded : Index × Anchors} (hload : s.loadIndex supply' other = .ok loaded) :
    (s.indexProject supply tree root options).store.loadIndex supply' other = .ok loaded := by
  rw [(indexProject_eq_of_error houtcome).2, ← hload]
  rw [loadIndex] at hload
  cases hp : s.project? (Path.fromTop other) with
  | none =>
      dsimp only at hload
      rw [hp] at hload
      cases hload
  | some p =>
      have hrows : (s.withProject (Path.fromTop root)).functionsOf p.id = s.functionsOf p.id := by
        unfold withProject
        split <;> rfl
      rw [loadIndex, loadIndex]
      dsimp only
      rw [project?_withProject hp, hp]
      dsimp only
      rw [hrows]

end Store

end OverloadDocs
