import OverloadDocs.Proofs.FailedRun
import OverloadDocs.Store.Texts

/-!
Histories of calls. Whatever calls are made one after the other, with rows that exist and rows that do not, the
tables stay in order and the text index holds one entry for each function. An identity is given above all that were
given before and its row stays at its place, so that one that is missing has been given for the last time.
-/

namespace OverloadDocs

/-! ## Identities -/

/-- A table that has come from an earlier one: no identity is given again, and rows with earlier identities are rows of
the earlier table, which stand where they stood. -/
structure Onward {α κ : Type} (id : α → Int) (place : α → κ) (last last' : Int) (rows rows' : List α) : Prop where
  le : last ≤ last'
  mem : ∀ row' ∈ rows', id row' ≤ last → ∃ row ∈ rows, id row = id row' ∧ place row = place row'

namespace Onward

variable {α κ : Type} {id : α → Int} {place : α → κ} {last last' last'' : Int} {rows rows' rows'' : List α}

theorem refl (id : α → Int) (place : α → κ) (last : Int) (rows : List α) : Onward id place last last rows rows :=
  ⟨Int.le_refl last, fun row hrow _ => ⟨row, hrow, rfl, rfl⟩⟩

theorem trans (h : Onward id place last last' rows rows') (h' : Onward id place last' last'' rows' rows'') :
    Onward id place last last'' rows rows'' := by
  refine ⟨Int.le_trans h.le h'.le, fun row'' hrow'' hold => ?_⟩
  obtain ⟨row', hrow', hid', hplace'⟩ := h'.mem row'' hrow'' (Int.le_trans hold h.le)
  obtain ⟨row, hrow, hid, hplace⟩ := h.mem row' hrow' (hid' ▸ hold)
  exact ⟨row, hrow, hid.trans hid', hplace.trans hplace'⟩

theorem filter (id : α → Int) (place : α → κ) (last : Int) (rows : List α) (keep : α → Bool) :
    Onward id place last last rows (rows.filter keep) :=
  ⟨Int.le_refl last, fun row hrow _ => ⟨row, List.mem_of_mem_filter hrow, rfl, rfl⟩⟩

theorem append (place : α → κ) (rows : List α) {row : α} (hid : id row = last + 1) :
    Onward id place last (last + 1) rows (rows ++ [row]) := by
  refine ⟨by omega, fun row' hrow' hold => ?_⟩
  rcases List.mem_append.mp hrow' with hrow' | hnew
  · exact ⟨row', hrow', rfl, rfl⟩
  · obtain rfl := List.mem_singleton.mp hnew
    omega

theorem map (last : Int) {f : α → α} (hid : ∀ row ∈ rows, id (f row) = id row)
    (hplace : ∀ row ∈ rows, place (f row) = place row) : Onward id place last last rows (rows.map f) := by
  refine ⟨Int.le_refl last, fun row' hrow' _ => ?_⟩
  obtain ⟨row, hrow, rfl⟩ := List.mem_map.mp hrow'
  exact ⟨row, hrow, (hid row hrow).symm, (hplace row hrow).symm⟩

/-- A row takes the place of another, and an identity is used up. -/
theorem replace (h : Keyed id place last rows) {old row : α} (hold : old ∈ rows) (hid : id row = id old)
    (hplace : place row = place old) :
    Onward id place last (last + 1) rows (rows.map fun r => if id r = id old then row else r) := by
  refine ⟨by omega, fun row' hrow' _ => ?_⟩
  rcases (h.mem_replace hold).mp hrow' with rfl | ⟨hrow', -⟩
  · exact ⟨old, hold, hid.symm, hplace.symm⟩
  · exact ⟨row', hrow', rfl, rfl⟩

/-- An identity that is missing stays missing. -/
theorem missing (h : Onward id place last last' rows rows') {n : Int} (hn : n ≤ last) (hgone : n ∉ rows.map id) :
    n ∉ rows'.map id := by
  intro hmem
  obtain ⟨row', hrow', rfl⟩ := List.mem_map.mp hmem
  obtain ⟨row, hrow, hid, -⟩ := h.mem row' hrow' hn
  exact hgone (List.mem_map.mpr ⟨row, hrow, hid⟩)

end Onward

namespace Store

/-- A store that has come from an earlier one. -/
structure Onward (s s' : Store) : Prop where
  projects : OverloadDocs.Onward Project.id Project.root s.lastProject s'.lastProject s.projects s'.projects
  files : OverloadDocs.Onward FileRow.id FileRow.place s.lastFile s'.lastFile s.files s'.files
  functions :
    OverloadDocs.Onward FunctionRow.id FunctionRow.place s.lastFunction s'.lastFunction s.functions s'.functions

theorem Onward.refl (s : Store) : s.Onward s := ⟨.refl _ _ _ _, .refl _ _ _ _, .refl _ _ _ _⟩

theorem Onward.trans {s s' s'' : Store} (h : s.Onward s') (h' : s'.Onward s'') : s.Onward s'' :=
  ⟨h.projects.trans h'.projects, h.files.trans h'.files, h.functions.trans h'.functions⟩

/-! ## Calls that go through -/

/-- What a call needs: a root that is new, or the row that another one is to belong to. -/
def Allows (s : Store) : StoreCall → Prop
  | .createProject root _ _ => ∀ p ∈ s.projects, p.root ≠ root
  | .upsertFile file => s.HasProject file.projectId
  | .upsertFunction function => s.HasFile function.fileId
  | .updateProject _ _ _ _ _ | .deleteFile _ | .deleteFunction _ | .deleteFunctionsOf _ => True

theorem hasProject_iff {s : Store} {id : Int} : s.HasProject id ↔ (s.projectById? id).isNone = false := by
  refine ⟨HasProject.isNone_eq_false, fun h => ?_⟩
  obtain ⟨p, hp⟩ := Option.isSome_iff_exists.mp (Option.isNone_eq_false_iff.mp h)
  have hid := List.find?_some hp
  exact ⟨p, List.mem_of_find?_eq_some hp, of_decide_eq_true hid⟩

theorem hasFile_iff {s : Store} {id : Int} : s.HasFile id ↔ (s.fileById? id).isNone = false := by
  refine ⟨HasFile.isNone_eq_false, fun h => ?_⟩
  obtain ⟨f, hf⟩ := Option.isSome_iff_exists.mp (Option.isNone_eq_false_iff.mp h)
  have hid := List.find?_some hf
  exact ⟨f, List.mem_of_find?_eq_some hf, of_decide_eq_true hid⟩

/-- All that a call can do to the rows. -/
inductive Called (s : Store) : StoreCall → Store → Prop
  | projectAdded {root name indexVersion : String} {p : Project} (hnew : ∀ q ∈ s.projects, q.root ≠ p.root)
      (hid : p.id = s.lastProject + 1) (hroot : p.root = root) :
      Called s (.createProject root name indexVersion)
        { s with projects := s.projects ++ [p], lastProject := s.lastProject + 1 }
  | projectUpdated (id : Int) (name : String) (totalFiles totalFunctions : Int) (indexed : Bool) :
      Called s (.updateProject id name totalFiles totalFunctions indexed)
        (s.updateProject id name totalFiles totalFunctions indexed)
  | fileAdded {file : FileRow} (hproject : s.HasProject file.projectId)
      (hold : s.file? file.projectId file.path = none) : Called s (.upsertFile file) (s.addFile file)
  | fileChanged {file old : FileRow} (hproject : s.HasProject file.projectId)
      (hold : s.file? file.projectId file.path = some old) :
      Called s (.upsertFile file) (s.changeFile file old)
  | fileDeleted (id : Int) : Called s (.deleteFile id) (s.deleteFile id)
  | functionAdded {function : FunctionRow} (hfile : s.HasFile function.fileId)
      (hold : s.functionAt? function.fileId function.key = none) :
      Called s (.upsertFunction function) (s.addFunction function)
  | functionChanged {function old : FunctionRow} (hfile : s.HasFile function.fileId)
      (hold : s.functionAt? function.fileId function.key = some old) :
      Called s (.upsertFunction function) (s.changeFunction function old)
  | functionDeleted (id : Int) : Called s (.deleteFunction id) (s.deleteFunction id)
  | functionsDeleted (fileId : Int) : Called s (.deleteFunctionsOf fileId) (s.deleteFunctionsOf fileId)

/-- A call goes through just where the rows allow it. -/
theorem call_cases (s : Store) (c : StoreCall) :
    (∃ e, s.call c = .error e ∧ ¬ s.Allows c) ∨ ∃ s', s.call c = .ok s' ∧ s.Allows c ∧ s.Called c s' := by
  cases c with
  | createProject root name indexVersion =>
      rw [call, createProject]
      cases hold : s.project? root with
      | some p =>
          have hroot := List.find?_some hold
          exact .inl ⟨_, rfl, fun h => h p (List.mem_of_find?_eq_some hold) (of_decide_eq_true hroot)⟩
      | none =>
          have hnew : ∀ p ∈ s.projects, p.root ≠ root := find?_key_eq_none.mp hold
          exact .inr ⟨_, rfl, hnew, .projectAdded hnew rfl rfl⟩
  | updateProject id name totalFiles totalFunctions indexed =>
      exact .inr ⟨_, rfl, trivial, .projectUpdated id name totalFiles totalFunctions indexed⟩
  | upsertFile file =>
      cases hparent : (s.projectById? file.projectId).isNone with
      | true =>
          refine .inl ⟨.missingParent .upsertFile, ?_, fun h => ?_⟩
          · rw [call, upsertFile, if_pos hparent]
            rfl
          · rw [Allows, hasProject_iff, hparent] at h
            contradiction
      | false =>
          have hproject := hasProject_iff.mpr hparent
          cases hold : s.file? file.projectId file.path with
          | none =>
              have hput := congrArg (Except.map Prod.snd) (hproject.upsertFile_of_none hold)
              exact .inr ⟨_, hput, hproject, .fileAdded hproject hold⟩
          | some old =>
              have hput := congrArg (Except.map Prod.snd) (hproject.upsertFile_of_some hold)
              exact .inr ⟨_, hput, hproject, .fileChanged hproject hold⟩
  | deleteFile id => exact .inr ⟨_, rfl, trivial, .fileDeleted id⟩
  | upsertFunction function =>
      cases hparent : (s.fileById? function.fileId).isNone with
      | true =>
          refine .inl ⟨.missingParent .upsertFunction, ?_, fun h => ?_⟩
          · rw [call, upsertFunction, if_pos hparent]
            rfl
          · rw [Allows, hasFile_iff, hparent] at h
            contradiction
      | false =>
          have hfile := hasFile_iff.mpr hparent
          cases hold : s.functionAt? function.fileId function.key with
          | none =>
              have hput := congrArg (Except.map Prod.snd) (hfile.upsertFunction_of_none hold)
              exact .inr ⟨_, hput, hfile, .functionAdded hfile hold⟩
          | some old =>
              have hput := congrArg (Except.map Prod.snd) (hfile.upsertFunction_of_some hold)
              exact .inr ⟨_, hput, hfile, .functionChanged hfile hold⟩
  | deleteFunction id => exact .inr ⟨_, rfl, trivial, .functionDeleted id⟩
  | deleteFunctionsOf fileId => exact .inr ⟨_, rfl, trivial, .functionsDeleted fileId⟩

/-- A call keeps the tables in order. -/
theorem Consistent.called {s s' : Store} (hs : s.Consistent) {c : StoreCall} (h : s.Called c s') :
    s'.Consistent := by
  cases h with
  | projectAdded hnew hid => exact hs.addProject hid hnew
  | projectUpdated => exact hs.updateProject _ _ _ _ _
  | fileAdded hproject hold => exact (hs.addFile hproject hold).consistent
  | fileChanged hproject hold => exact (hs.changeFile hproject hold).consistent
  | fileDeleted id =>
      refine hs.filter _ _ fun f _ r _ hid hkept => ?_
      rw [← hid]
      exact hkept
  | functionAdded hfile hold => exact (hs.addFunction hfile hold).consistent
  | functionChanged hfile hold => exact (hs.changeFunction hfile hold).consistent
  | functionDeleted id => exact hs.filterFunctions _
  | functionsDeleted fileId => exact hs.filterFunctions _

/-- A call gives identities above the earlier ones, and leaves rows where they stand. -/
theorem Consistent.onward {s s' : Store} (hs : s.Consistent) {c : StoreCall} (h : s.Called c s') :
    s.Onward s' := by
  have hrefl := Onward.refl s
  cases h with
  | projectAdded hnew hid => exact { hrefl with projects := .append Project.root s.projects hid }
  | projectUpdated =>
      refine { hrefl with projects := .map s.lastProject (fun p _ => ?_) (fun p _ => ?_) }
      · split <;> rfl
      · split <;> rfl
  | fileAdded hproject hold => exact { hrefl with files := .append FileRow.place s.files rfl }
  | fileChanged hproject hold =>
      obtain ⟨hmem, hpid, hpath⟩ := hs.file?_eq_some.mp hold
      refine { hrefl with files := .replace hs.files hmem rfl ?_ }
      simp only [FileRow.place, hpid, hpath]
  | fileDeleted id => exact { hrefl with files := .filter _ _ _ _ _, functions := .filter _ _ _ _ _ }
  | functionAdded hfile hold => exact { hrefl with functions := .append FunctionRow.place s.functions rfl }
  | functionChanged hfile hold =>
      obtain ⟨hmem, hid, hkey⟩ := hs.functionAt?_eq_some.mp hold
      refine { hrefl with functions := .replace hs.functions hmem rfl ?_ }
      simp only [FunctionRow.place, hid, hkey]
  | functionDeleted id => exact { hrefl with functions := .filter _ _ _ _ _ }
  | functionsDeleted fileId => exact { hrefl with functions := .filter _ _ _ _ _ }

end Store

/-! ## The text index -/

/-- A change of rows leads from one table to another. -/
def RowChange.Leads (change : RowChange) (rows rows' : List FunctionRow) : Prop :=
  ∃ kept, rows.Perm (change.removed ++ kept) ∧ rows'.Perm (kept ++ change.added)

theorem RowChange.Leads.empty (rows : List FunctionRow) : Leads {} rows rows :=
  ⟨rows, .refl rows, .of_eq (List.append_nil rows).symm⟩

theorem RowChange.Leads.filter (rows : List FunctionRow) (gone : FunctionRow → Prop) [DecidablePred gone] :
    Leads { removed := rows.filter (gone ·) } rows (rows.filter (¬ gone ·)) := by
  have hsplit := List.filter_append_perm (gone ·) rows
  simp only [← decide_not] at hsplit
  exact ⟨rows.filter (¬ gone ·), hsplit.symm, .of_eq (List.append_nil _).symm⟩

/-- The rows of functions change as it is told to the text index. -/
theorem Store.Consistent.leads {s s' : Store} (hs : s.Consistent) {c : StoreCall} (h : s.Called c s') :
    (s.rowChange c).Leads s.functions s'.functions := by
  cases h with
  | projectAdded => exact .empty _
  | projectUpdated => exact .empty _
  | fileAdded => exact .empty _
  | fileChanged => exact .empty _
  | fileDeleted id => exact .filter s.functions (·.fileId = id)
  | functionAdded hfile hold =>
      rw [rowChange, hfile.upsertFunction_of_none hold]
      rw [functionAt?] at hold
      simp only [hold]
      exact ⟨s.functions, .refl _, .refl _⟩
  | functionChanged hfile hold =>
      rw [rowChange, hfile.upsertFunction_of_some hold]
      have hmem := (hs.functionAt?_eq_some.mp hold).1
      rw [functionAt?] at hold
      simp only [hold]
      exact hs.functions.perm_replace hmem _
  | functionDeleted id => exact .filter s.functions (·.id = id)
  | functionsDeleted fileId => exact .filter s.functions (·.fileId = fileId)

namespace TextEntry

theorem perm_without {entries rest : List TextEntry} {removed : List FunctionRow}
    (h : entries.Perm (removed.map ofRow ++ rest)) : (without entries removed).Perm rest := by
  induction removed generalizing entries with
  | nil => exact h
  | cons row removed ih =>
      have herase := h.erase (ofRow row)
      rw [List.map_cons, List.cons_append, List.erase_cons_head] at herase
      exact ih herase

/-- The triggers keep one entry for each row. -/
theorem perm_triggered {entries : List TextEntry} {change : RowChange} {rows rows' : List FunctionRow}
    (hentries : entries.Perm (rows.map ofRow)) (h : change.Leads rows rows') :
    (triggered entries change).Perm (rows'.map ofRow) := by
  obtain ⟨kept, hrows, hrows'⟩ := h
  have hbefore : entries.Perm (change.removed.map ofRow ++ kept.map ofRow) := by
    rw [← List.map_append]
    exact hentries.trans (hrows.map ofRow)
  have hafter : (rows'.map ofRow).Perm (kept.map ofRow ++ change.added.map ofRow) := by
    rw [← List.map_append]
    exact hrows'.map ofRow
  exact ((perm_without hbefore).append_right _).trans hafter.symm

end TextEntry

/-! ## Histories -/

namespace TextedStore

variable {s : TextedStore}

/-- The tables are in order, and the text index has one entry for each function. -/
structure InOrder (s : TextedStore) : Prop where
  rows : s.toStore.Consistent
  texts : s.texts.Perm (s.functions.map .ofRow)

theorem InOrder.empty : InOrder {} := ⟨.empty, .nil⟩

/-- A call that is not allowed is refused and changes nothing, and any other one goes through. -/
theorem call_cases (s : TextedStore) (c : StoreCall) :
    (¬ s.Allows c ∧ ∃ e, s.call c = (some e, s)) ∨
      (s.Allows c ∧ ∃ rows, s.Called c rows ∧
        s.call c = (none, ⟨rows, TextEntry.triggered s.texts (s.toStore.rowChange c)⟩)) := by
  obtain ⟨e, herror, hnot⟩ | ⟨rows, hok, hallows, hcalled⟩ := s.toStore.call_cases c
  · exact .inl ⟨hnot, e, by rw [call, herror]⟩
  · exact .inr ⟨hallows, rows, hcalled, by rw [call, hok]⟩

theorem InOrder.call (h : s.InOrder) (c : StoreCall) :
    (s.call c).2.InOrder ∧ s.toStore.Onward (s.call c).2.toStore := by
  obtain ⟨-, e, hcall⟩ | ⟨-, rows, hcalled, hcall⟩ := s.call_cases c
  · rw [hcall]
    exact ⟨h, .refl _⟩
  · rw [hcall]
    exact ⟨⟨h.rows.called hcalled, TextEntry.perm_triggered h.texts (h.rows.leads hcalled)⟩, h.rows.onward hcalled⟩

theorem InOrder.calls (h : s.InOrder) (cs : List StoreCall) :
    (s.calls cs).InOrder ∧ s.toStore.Onward (s.calls cs).toStore := by
  induction cs generalizing s with
  | nil => exact ⟨h, .refl _⟩
  | cons c cs ih =>
      obtain ⟨hstep, honward⟩ := h.call c
      obtain ⟨hrun, honward'⟩ := ih hstep
      exact ⟨hrun, honward.trans honward'⟩

/-- A query finds the functions whose texts it finds, each once. -/
theorem InOrder.hits (h : s.InOrder) (query : String) :
    (s.hits query).Perm ((s.functions.filter fun row =>
      (Store.searchable row).isFound (FullText.phrases query)).map (·.id)) := by
  have hfound := (h.texts.filter (·.searchable.isFound (FullText.phrases query))).map (·.id)
  rw [List.filter_map, List.map_map] at hfound
  exact hfound

/-- What holds of the rows and the text index, and of every call that is made with them. -/
structure Laws (s : TextedStore) : Prop where
  roots : (s.projects.map (·.root)).Nodup
  paths : (s.files.map fun f => (f.projectId, f.path)).Nodup
  keys : (s.functions.map fun row => (row.fileId, row.key)).Nodup
  fileParents : ∀ f ∈ s.files, ∃ p ∈ s.projects, p.id = f.projectId
  functionParents : ∀ row ∈ s.functions, ∃ f ∈ s.files, f.id = row.fileId
  texts : s.texts.Perm (s.functions.map .ofRow) ∧ (s.texts.map (·.id)).Nodup
  hits : ∀ query, (s.hits query).Perm ((s.functions.filter fun row =>
    (Store.searchable row).isFound (FullText.phrases query)).map (·.id))
  refused : ∀ c, (s.call c).1 ≠ none → (s.call c).2 = s
  allowed : ∀ c, (s.call c).1 = none ↔ s.Allows c
  keptFile : ∀ file, ∀ old ∈ s.files, old.projectId = file.projectId → old.path = file.path →
    (s.call (.upsertFile file)).2.file? file.projectId file.path = some { file with id := old.id }
  keptFunction : ∀ function, ∀ old ∈ s.functions, old.fileId = function.fileId → old.key = function.key →
    (s.call (.upsertFunction function)).2.functionAt? function.fileId function.key =
      some { function with id := old.id, anchor := old.anchor, filePath := "" }

theorem InOrder.keptFile (h : s.InOrder) {file old : FileRow} (hold : old ∈ s.files)
    (hproject : old.projectId = file.projectId) (hpath : old.path = file.path) :
    (s.call (.upsertFile file)).2.file? file.projectId file.path = some { file with id := old.id } := by
  obtain ⟨row, rows, hput, hspec⟩ := h.rows.upsertFile file (hproject ▸ h.rows.fileParents old hold)
  have hrows : (s.call (.upsertFile file)).2.toStore = rows := by
    rw [TextedStore.call, Store.call, hput]
    rfl
  have hid := hspec.kept old (h.rows.file?_eq_some.mpr ⟨hold, hproject, hpath⟩)
  rw [hrows, hspec.file?, if_pos ⟨rfl, rfl⟩, hspec.content, hid]

theorem InOrder.keptFunction (h : s.InOrder) {function old : FunctionRow} (hold : old ∈ s.functions)
    (hfile : old.fileId = function.fileId) (hkey : old.key = function.key) :
    (s.call (.upsertFunction function)).2.functionAt? function.fileId function.key =
      some { function with id := old.id, anchor := old.anchor, filePath := "" } := by
  obtain ⟨row, rows, hput, hspec⟩ :=
    h.rows.upsertFunction function (hfile ▸ h.rows.functionParents old hold)
  have hrows : (s.call (.upsertFunction function)).2.toStore = rows := by
    rw [TextedStore.call, Store.call, hput]
    rfl
  obtain ⟨hid, hanchor⟩ := hspec.kept old (h.rows.functionAt?_eq_some.mpr ⟨hold, hfile, hkey⟩)
  rw [hrows, hspec.functionAt?, if_pos ⟨rfl, rfl⟩, hspec.content, hid, hanchor]

theorem InOrder.laws (h : s.InOrder) : s.Laws where
  roots := h.rows.projects.places
  paths := h.rows.files.places
  keys := h.rows.functions.places
  fileParents := h.rows.fileParents
  functionParents := h.rows.functionParents
  texts := by
    refine ⟨h.texts, ?_⟩
    have hids := (h.texts.map (·.id)).nodup_iff
    rw [hids, List.map_map]
    exact h.rows.functions.ids
  hits := h.hits
  refused c hc := by
    obtain ⟨-, e, hcall⟩ | ⟨-, rows, -, hcall⟩ := s.call_cases c
    · rw [hcall]
    · rw [hcall] at hc
      contradiction
  allowed c := by
    obtain ⟨hnot, e, hcall⟩ | ⟨hallows, rows, -, hcall⟩ := s.call_cases c
    · rw [hcall]
      exact iff_of_false (Option.some_ne_none e) hnot
    · rw [hcall]
      exact iff_of_true rfl hallows
  keptFile _ _ := h.keptFile
  keptFunction _ _ := h.keptFunction

end TextedStore

/-- What is gone from a store stays gone in a later one: the identities of projects, files and functions that had been
given before. -/
structure Store.Retires (earlier now later : Store) : Prop where
  projects : ∀ p ∈ earlier.projects, p.id ∉ now.projects.map (·.id) → p.id ∉ later.projects.map (·.id)
  files : ∀ f ∈ earlier.files, f.id ∉ now.files.map (·.id) → f.id ∉ later.files.map (·.id)
  functions : ∀ row ∈ earlier.functions, row.id ∉ now.functions.map (·.id) →
    row.id ∉ later.functions.map (·.id)

theorem Store.Onward.retires {earlier now later : Store} (hs : earlier.Consistent) (h : earlier.Onward now)
    (h' : now.Onward later) : earlier.Retires now later where
  projects p hp := h'.projects.missing (Int.le_trans (hs.projects.bounded p hp) h.projects.le)
  files f hf := h'.files.missing (Int.le_trans (hs.files.bounded f hf) h.files.le)
  functions row hrow := h'.functions.missing (Int.le_trans (hs.functions.bounded row hrow) h.functions.le)

/-- Every history keeps the store in order. Whatever calls have been made from the empty store on, roots, paths and
keys are unique, every file has its project and every function its file, and the text index holds one entry for each
function, with its texts. A call that is refused changes nothing. A file or a function that is there keeps its
identity, and a function its anchor, when it is stored again, and the identity of a row that is gone is never given
again. -/
theorem TextedStore.laws_calls (earlier : List StoreCall) :
    let s := TextedStore.calls {} earlier
    s.Laws ∧ ∀ middle later, s.Retires (s.calls middle).toStore ((s.calls middle).calls later).toStore := by
  intro s
  have hs : s.InOrder := (InOrder.empty.calls earlier).1
  refine ⟨hs.laws, fun middle later => ?_⟩
  obtain ⟨hmiddle, honward⟩ := hs.calls middle
  exact honward.retires hs.rows (hmiddle.calls later).2

/-- A function is stored, changed and removed with its file: its texts leave the index and its identity is not given
to the next one. -/
example :
    let function : FunctionRow := { fileId := 1, name := "f", signature := "real f(real x)", key := "f(real)" }
    let s := TextedStore.calls {} [.createProject "/" "" "",
      .upsertFile { projectId := 1, path := "a.stan", hash := .ofText "" },
      .upsertFunction { function with summary := "alpha" }, .upsertFunction { function with summary := "beta" }]
    s.hits "alpha" = [] ∧ s.hits "beta" = [1] ∧
      (s.calls [.deleteFile 1, .upsertFunction function]).texts = [] := by
  decide +kernel

end OverloadDocs
