import Mathlib.Data.List.Forall2
import OverloadDocs.Proofs.ExactScores
import OverloadDocs.Search.Run
import OverloadDocs.Store.Texts

/-!
What a search shows of the rows that it found, whatever they hold. A row that cannot be read back is passed over, and
a text at a position behind the parameters is left out. A text at a negative position is neither: with one among the
rows that are shown, the search breaks off, and it breaks off for no other position.
-/

namespace OverloadDocs

/-! ## Texts by name -/

namespace SearchResult

variable {name text : String} {named : List (String × String)} {entry : String × String}

theorem mem_putText (h : entry ∈ putText name text named) : entry = (name, text) ∨ entry ∈ named := by
  induction named with
  | nil => exact .inl (List.mem_singleton.mp h)
  | cons e named ih =>
    rw [putText] at h
    split at h
    · exact List.mem_cons.mp h
    · split at h
      · exact (List.mem_cons.mp h).imp_right (List.mem_cons_of_mem e)
      · rcases List.mem_cons.mp h with rfl | h
        · exact .inr List.mem_cons_self
        · exact (ih h).imp_right (List.mem_cons_of_mem e)

/-- The names after a text is put are those from before and its own. -/
theorem mem_names_putText {n : String} :
    n ∈ (putText name text named).map (·.1) ↔ n = name ∨ n ∈ named.map (·.1) := by
  induction named with
  | nil => simp [putText]
  | cons e named ih =>
    rw [putText]
    split
    · simp
    · split
      · rename_i heq
        simp [heq]
      · rw [List.map_cons, List.mem_cons, ih, List.map_cons, List.mem_cons, or_left_comm]

/-- A text under a name that is new is one more. -/
theorem perm_putText (hnew : name ∉ named.map (·.1)) : (putText name text named).Perm ((name, text) :: named) := by
  induction named with
  | nil => exact .refl _
  | cons e named ih =>
    rw [List.map_cons, List.mem_cons, not_or] at hnew
    rw [putText]
    split
    · exact .refl _
    · rw [if_neg hnew.1]
      exact ((ih hnew.2).cons e).trans (.swap _ _ _)

/-- The text of a position under the name of the parameter there, if there is one. -/
def ofPosition? (params : List Parameter) (e : Int × String) : Option (String × String) :=
  params[e.1.toNat]?.map fun p => (p.name, e.2)

def putAll (named entries : List (String × String)) : List (String × String) :=
  entries.foldl (fun named entry => putText entry.1 entry.2 named) named

variable {entries : List (String × String)}

theorem mem_putAll (h : entry ∈ putAll named entries) : entry ∈ entries ∨ entry ∈ named := by
  induction entries generalizing named with
  | nil => exact .inr h
  | cons e entries ih =>
    rcases ih h with hmem | hmem
    · exact .inl (List.mem_cons_of_mem e hmem)
    · rcases mem_putText hmem with rfl | hmem
      · exact .inl List.mem_cons_self
      · exact .inr hmem

theorem mem_names_putAll {n : String} :
    n ∈ (putAll named entries).map (·.1) ↔ n ∈ entries.map (·.1) ∨ n ∈ named.map (·.1) := by
  induction entries generalizing named with
  | nil => simp [putAll]
  | cons e entries ih =>
    have hnext : putAll named (e :: entries) = putAll (putText e.1 e.2 named) entries := rfl
    rw [hnext, ih, mem_names_putText, List.map_cons, List.mem_cons, or_left_comm, or_assoc]

/-- Texts under different names, all of them new, are all there. -/
theorem perm_putAll (hnodup : (entries.map (·.1)).Nodup) (hnew : ∀ n ∈ entries.map (·.1), n ∉ named.map (·.1)) :
    (putAll named entries).Perm (entries ++ named) := by
  induction entries generalizing named with
  | nil => exact .refl _
  | cons e entries ih =>
    obtain ⟨hfirst, hnodup⟩ := List.nodup_cons.mp hnodup
    obtain ⟨hnewFirst, hnew⟩ := List.forall_mem_cons.mp hnew
    have hrest : ∀ n ∈ entries.map (·.1), n ∉ (putText e.1 e.2 named).map (·.1) := by
      intro n hn hput
      rcases mem_names_putText.mp hput with rfl | hold
      · exact hfirst hn
      · exact hnew n hn hold
    exact (ih hnodup hrest).trans (((perm_putText hnewFirst).append_left entries).trans List.perm_middle)

/-- One text more, unless its position is negative. -/
def addNamed (params : List Parameter) (named : List (String × String)) (e : Int × String) :
    Except SearchError (List (String × String)) :=
  if e.1 < 0 then .error .negativePosition else .ok (putAll named (ofPosition? params e).toList)

theorem namedTexts_eq_foldlM (params : List Parameter) (texts : PositionTexts) :
    namedTexts params texts = texts.foldlM (addNamed params) [] := by
  refine congrArg (List.foldlM · [] texts) (funext₂ fun named e => ?_)
  obtain ⟨i, text⟩ := e
  rw [addNamed, ofPosition?]
  dsimp only
  cases params[i.toNat]? <;> rfl

theorem foldlM_addNamed (params : List Parameter) (texts : PositionTexts) (named : List (String × String)) :
    texts.foldlM (addNamed params) named =
      if ∃ e ∈ texts, e.1 < 0 then .error .negativePosition
      else .ok (putAll named (texts.filterMap (ofPosition? params))) := by
  induction texts generalizing named with
  | nil => rfl
  | cons e texts ih =>
    rw [List.foldlM_cons, addNamed]
    by_cases hnegative : e.1 < 0
    · rw [if_pos hnegative, if_pos ⟨e, List.mem_cons_self, hnegative⟩]
      rfl
    · have hsame : (∃ e' ∈ e :: texts, e'.1 < 0) ↔ ∃ e' ∈ texts, e'.1 < 0 := by
        rw [List.exists_mem_cons_iff, or_iff_right hnegative]
      have hput : putAll named ((e :: texts).filterMap (ofPosition? params)) =
          putAll (putAll named (ofPosition? params e).toList) (texts.filterMap (ofPosition? params)) := by
        rw [List.filterMap_cons]
        cases ofPosition? params e <;> rfl
      simp only [hsame]
      rw [if_neg hnegative, hput]
      exact ih _

/-- Every text at a position of a parameter is put under its name, and those behind the parameters are left out;
a negative position is neither. -/
theorem namedTexts_eq (params : List Parameter) (texts : PositionTexts) :
    namedTexts params texts =
      if ∃ e ∈ texts, e.1 < 0 then .error .negativePosition
      else .ok (putAll [] (texts.filterMap (ofPosition? params))) := by
  rw [namedTexts_eq_foldlM, foldlM_addNamed]

end SearchResult

/-! ## Results -/

variable {α : Type}

/-- What a result shows of the function behind it: the row, what is documented as a whole, and the texts of
parameters that are there, by name. -/
structure SearchResult.Shows (place : Ranked α) (row : FunctionRow) (f : Documented) (r : SearchResult α) :
    Prop where
  place : r.id = row.id ∧ r.rank = place.rank ∧ r.relevance = place.score
  row : r.signature = row.signature ∧ r.key = row.key ∧ r.anchor = row.anchor ∧ r.file = row.filePath ∧
    r.startLine = row.startLine ∧ r.endLine = row.endLine
  doc : r.summary = f.doc.summary ∧ r.returnDoc = f.doc.returnDoc.getD "" ∧ r.failures = f.doc.failures
  /-- Every text is one of a parameter of that name. -/
  texts : ∀ entry ∈ r.paramDocs, ∃ (i : Nat) (p : Parameter), f.signature.params[i]? = some p ∧ p.name = entry.1 ∧
    ((i : Int), entry.2) ∈ f.doc.paramDocs
  /-- Every parameter that has a text has one under its name. -/
  names : ∀ (i : Nat) (p : Parameter) (text : String), f.signature.params[i]? = some p →
    ((i : Int), text) ∈ f.doc.paramDocs → p.name ∈ r.paramDocs.map (·.1)

/-- The row of a function with what it reads back as, if it is there and can be read back. -/
def Database.readBack? (db : Database) (id : Int) : Option (FunctionRow × Documented) :=
  match db.read none fun s => .ok (s.function? id) with
  | .ok (some row) => row.toDocumented.toOption.map (row, ·)
  | _ => none

/-- One of some ranked functions reads back with a text at a negative position. -/
def Database.ReachesBelow (db : Database) (ranked : List (Ranked α)) : Prop :=
  ∃ r ∈ ranked, ∃ row f, db.readBack? r.id = some (row, f) ∧ ∃ e ∈ f.doc.paramDocs, e.1 < 0

theorem SearchResult.ofRow_eq_error {place : Ranked α} {row : FunctionRow} {f : Documented}
    (h : ∃ e ∈ f.doc.paramDocs, e.1 < 0) : ofRow place row f = .error .negativePosition := by
  rw [ofRow, namedTexts_eq, if_pos h]
  rfl

theorem SearchResult.exists_ofRow (place : Ranked α) (row : FunctionRow) {f : Documented}
    (h : ¬ ∃ e ∈ f.doc.paramDocs, e.1 < 0) : ∃ r, ofRow place row f = .ok r ∧ Shows place row f r := by
  rw [ofRow, namedTexts_eq, if_neg h]
  refine ⟨_, rfl, ⟨rfl, rfl, rfl⟩, ⟨rfl, rfl, rfl, rfl, rfl, rfl⟩, ⟨rfl, rfl, rfl⟩, fun entry hentry => ?_,
    fun i p text hp htext => ?_⟩
  · obtain hmem | hmem := mem_putAll hentry
    · obtain ⟨e, he, hnamed⟩ := List.mem_filterMap.mp hmem
      obtain ⟨p, hp, rfl⟩ := Option.map_eq_some_iff.mp hnamed
      have hposition : ((e.1.toNat : Nat) : Int) = e.1 :=
        Int.toNat_of_nonneg (Int.not_lt.mp fun hnegative => h ⟨e, he, hnegative⟩)
      exact ⟨e.1.toNat, p, hp, rfl, by rwa [hposition]⟩
    · cases hmem
  · have hnamed : ofPosition? f.signature.params ((i : Int), text) = some (p.name, text) := by
      rw [ofPosition?, Int.toNat_natCast, hp]
      rfl
    have hmem : (p.name, text) ∈ f.doc.paramDocs.filterMap (ofPosition? f.signature.params) :=
      List.mem_filterMap.mpr ⟨_, htext, hnamed⟩
    exact mem_names_putAll.mpr (.inl (List.mem_map.mpr ⟨_, hmem, rfl⟩))

namespace Database

/-- A row that is gone or cannot be read back does not count. -/
theorem results_cons_of_none {db : Database} {r : Ranked α} (h : db.readBack? r.id = none) (rs : List (Ranked α)) :
    db.results (r :: rs) = db.results rs := by
  rw [readBack?] at h
  rw [results]
  rcases hread : db.read none fun s => .ok (s.function? r.id) with e | _ | row
  · rfl
  · rfl
  · rw [hread] at h
    dsimp only at h ⊢
    cases hback : row.toDocumented with
    | error e => rfl
    | ok f =>
      rw [hback] at h
      cases h

theorem results_cons_of_some {db : Database} {r : Ranked α} {row : FunctionRow} {f : Documented}
    (h : db.readBack? r.id = some (row, f)) (rs : List (Ranked α)) :
    db.results (r :: rs) =
      match SearchResult.ofRow r row f with
      | .error e => .error e
      | .ok first => (db.results rs).map (first :: ·) := by
  rw [readBack?] at h
  rw [results]
  rcases hread : db.read none fun s => .ok (s.function? r.id) with e | _ | row'
  · rw [hread] at h
    cases h
  · rw [hread] at h
    cases h
  · rw [hread] at h
    dsimp only at h ⊢
    cases hback : row'.toDocumented with
    | error e =>
      rw [hback] at h
      cases h
    | ok f' =>
      rw [hback] at h
      cases h
      rfl

/-- The rows that can be read back are shown one by one, unless one has a text at a negative position. -/
theorem results_cases (db : Database) (ranked : List (Ranked α)) :
    db.ReachesBelow ranked ∧ db.results ranked = .error .negativePosition ∨
      ¬ db.ReachesBelow ranked ∧ ∃ results, db.results ranked = .ok results ∧
        List.Forall₂ (fun shown r => r.Shows shown.1 shown.2.1 shown.2.2)
          (ranked.filterMap fun r => (db.readBack? r.id).map (r, ·)) results := by
  induction ranked with
  | nil => exact .inr ⟨fun ⟨r, hr, _⟩ => List.not_mem_nil hr, [], rfl, .nil⟩
  | cons r rs ih =>
    have hbelow : db.ReachesBelow (r :: rs) ↔
        (∃ row f, db.readBack? r.id = some (row, f) ∧ ∃ e ∈ f.doc.paramDocs, e.1 < 0) ∨ db.ReachesBelow rs :=
      List.exists_mem_cons_iff ..
    rw [hbelow]
    cases hback : db.readBack? r.id with
    | none =>
      rw [results_cons_of_none hback, List.filterMap_cons_none (by rw [hback]; rfl)]
      simpa using ih
    | some read =>
      obtain ⟨row, f⟩ := read
      rw [results_cons_of_some hback, List.filterMap_cons_some (by rw [hback]; rfl)]
      by_cases hnegative : ∃ e ∈ f.doc.paramDocs, e.1 < 0
      · rw [SearchResult.ofRow_eq_error hnegative]
        exact .inl ⟨.inl ⟨row, f, rfl, hnegative⟩, rfl⟩
      · obtain ⟨first, hfirst, hshows⟩ := SearchResult.exists_ofRow r row hnegative
        rw [hfirst]
        have hrow : ¬ ∃ row' f', some (row, f) = some (row', f') ∧ ∃ e ∈ f'.doc.paramDocs, e.1 < 0 := by
          rintro ⟨_, _, heq, hmem⟩
          cases heq
          exact hnegative hmem
        rcases ih with ⟨hrest, hresults⟩ | ⟨hrest, results, hresults, hall⟩
        · refine .inl ⟨.inr hrest, ?_⟩
          dsimp only
          rw [hresults]
          rfl
        · refine .inr ⟨not_or.mpr ⟨hrow, hrest⟩, first :: results, ?_, .cons hshows hall⟩
          dsimp only
          rw [hresults]
          rfl

/-! ## Searches -/

theorem referenceMatches_ne (db : Database) (projectId : Int) (query : String) (filter : Option (SearchFilter α)) :
    db.referenceMatches projectId query filter ≠ .error .negativePosition := by
  rw [referenceMatches]
  cases Query.parse query with
  | error e => exact nofun
  | ok q =>
    dsimp only
    split
    · exact nofun
    · cases filter with
      | none => exact nofun
      | some filter =>
        dsimp only
        cases filter.keptReferences _ <;> exact nofun

theorem eq_error_of_map {ε β γ : Type} {x : Except ε β} {f : β → γ} {e : ε} (h : x.map f = .error e) :
    x = .error e := by
  cases x with
  | error e' => exact congrArg Except.error (Except.error.inj h)
  | ok b => cases h

variable [Score α] (db : Database) (raw : Store → String → RawScores α)

theorem referenceSearch_ne (r : SearchRequest α) : db.referenceSearch r ≠ .error .negativePosition :=
  fun h => db.referenceMatches_ne r.projectId r.trimmedQuery r.filter (eq_error_of_map h)

theorem keywordSearch_ne (r : SearchRequest α) : db.keywordSearch raw r ≠ .error .negativePosition := by
  rw [keywordSearch]
  cases db.searchText raw r.projectId r.trimmedQuery (2 * r.effectiveLimit) r.filter <;> exact nofun

/-- Ranking looks at no text of a parameter. -/
theorem rankings_ne (r : SearchRequest α) (mode : SearchMode) :
    db.rankings raw r mode ≠ .error .negativePosition := by
  cases mode with
  | reference =>
    rw [rankings]
    exact fun h => db.referenceSearch_ne r (eq_error_of_map h)
  | keyword =>
    rw [rankings]
    exact fun h => db.keywordSearch_ne raw r (eq_error_of_map h)
  | hybrid =>
    have htexts := db.keywordSearch_ne raw r
    rw [rankings]
    dsimp only
    generalize db.keywordSearch raw r = texts at htexts ⊢
    split
    · exact nofun
    · exact nofun
    · exact nofun
    · exact fun h => htexts (congrArg Except.error (Except.error.inj h))

/-- With a memory a search is refused, or answers what is remembered, or searches anew. -/
theorem search_cases (memory : SearchMemory α) (now : Int) (r : SearchRequest α) :
    (db.search raw memory now r).1 = .error .emptyQuery ∨
      (∃ response, (db.search raw memory now r).1 = .ok response) ∨
      (db.search raw memory now r).1 = db.searchAnew raw r := by
  unfold search
  split
  · exact .inl rfl
  · split
    rename_i recalled memory' _
    cases recalled with
    | some response => exact .inr (.inl ⟨response, rfl⟩)
    | none =>
      refine .inr (.inr ?_)
      dsimp only
      cases db.searchAnew raw r with
      | error e => rfl
      | ok response =>
        dsimp only
        split <;> rfl

variable {db raw} {r : SearchRequest α} {mode : SearchMode} {rankings : Rankings α}

theorem searchAnew_of_rankings (hmode : SearchMode.ofName? r.effectiveMode = some mode)
    (hranked : db.rankings raw r mode = .ok rankings) :
    db.searchAnew raw r = (db.results (rankings.answer.take r.effectiveLimit)).map fun results =>
      { results := results
        mode := mode
        referenceResults := rankings.refs.length
        textResults := rankings.texts.length } := by
  rw [searchAnew, hmode]
  dsimp only
  rw [hranked]

theorem reachesBelow_of_searchAnew (h : db.searchAnew raw r = .error .negativePosition) :
    ∃ mode rankings, SearchMode.ofName? r.effectiveMode = some mode ∧ db.rankings raw r mode = .ok rankings ∧
      db.ReachesBelow (rankings.answer.take r.effectiveLimit) := by
  cases hmode : SearchMode.ofName? r.effectiveMode with
  | none =>
    rw [searchAnew, hmode] at h
    cases h
  | some mode =>
    cases hranked : db.rankings raw r mode with
    | error e =>
      rw [searchAnew, hmode] at h
      dsimp only at h
      rw [hranked] at h
      exact absurd (hranked.trans (congrArg Except.error (Except.error.inj h))) (db.rankings_ne raw r mode)
    | ok rankings =>
      refine ⟨mode, rankings, rfl, hranked, ?_⟩
      rw [searchAnew_of_rankings hmode hranked] at h
      rcases db.results_cases (rankings.answer.take r.effectiveLimit) with ⟨hbelow, -⟩ | ⟨-, results, hresults, -⟩
      · exact hbelow
      · cases (eq_error_of_map h).symm.trans hresults

variable (db raw)

/-- Whatever the rows hold, a search breaks off at a position only if a row that it would show reads back with a text
at a negative one. Otherwise, once the functions are ranked in one of the modes, it answers: it shows the rows that can
be read back, in their order, each with the texts of the parameters that it has. -/
theorem search_rows (memory : SearchMemory α) (now : Int) (r : SearchRequest α) :
    ((db.search raw memory now r).1 = .error .negativePosition →
      ∃ mode rankings, SearchMode.ofName? r.effectiveMode = some mode ∧ db.rankings raw r mode = .ok rankings ∧
        db.ReachesBelow (rankings.answer.take r.effectiveLimit)) ∧
    ∀ mode rankings, SearchMode.ofName? r.effectiveMode = some mode → db.rankings raw r mode = .ok rankings →
      let shown := rankings.answer.take r.effectiveLimit
      (db.ReachesBelow shown → db.searchAnew raw r = .error .negativePosition) ∧
      (¬ db.ReachesBelow shown → ∃ response, db.searchAnew raw r = .ok response ∧
        List.Forall₂ (fun shown result => result.Shows shown.1 shown.2.1 shown.2.2)
          (shown.filterMap fun place => (db.readBack? place.id).map (place, ·)) response.results) := by
  constructor
  · intro hsearch
    rcases db.search_cases raw memory now r with hblank | ⟨response, hfound⟩ | hsame
    · cases hblank.symm.trans hsearch
    · cases hfound.symm.trans hsearch
    · exact reachesBelow_of_searchAnew (hsame.symm.trans hsearch)
  · intro mode rankings hmode hranked shown
    rw [searchAnew_of_rankings hmode hranked]
    rcases db.results_cases shown with ⟨hbelow, hresults⟩ | ⟨hnone, results, hresults, hshows⟩
    · rw [hresults]
      exact ⟨fun _ => rfl, fun hnone => absurd hbelow hnone⟩
    · rw [hresults]
      exact ⟨fun hbelow => absurd hbelow hnone, fun _ => ⟨_, rfl, hshows⟩⟩

end Database

/-- The rows of functions called `f`, of one source, written with the given texts. -/
def Store.ofWritten (functions : List (String × String)) : Store :=
  let rows := functions.map fun (signature, docJson) =>
    StoreCall.upsertFunction
      { fileId := 1, name := "f", signature := signature, key := signature, docJson := docJson }
  let file : FileRow := { projectId := 1, path := "a.stan", hash := Digest.ofText "" }
  (TextedStore.calls {} (.createProject "/" "" "" :: .upsertFile file :: rows)).toStore

/-- A request for the functions called `f`. -/
def SearchRequest.ofMode (mode : SearchMode) : SearchRequest ℚ :=
  { query := "f", mode := mode.name, projectId := 1, constant := 60 }

/-- A search for a name ranks the functions that have it in their order. -/
theorem Database.rankings_of_name [Score α] {db : Database} (raw : Store → String → RawScores α)
    (hopen : db.closed = false) {r : SearchRequest α} (hfilter : r.filter = none) {name : String}
    (hparse : Query.parse r.trimmedQuery = .ok ⟨name, none⟩) {places : List (Ranked α)}
    (hplaces : places = Ranked.numbered ((db.store.functionsNamed r.projectId name).map fun row =>
      (row.id, Score.ofNat 1))) :
    db.rankings raw r .reference = .ok { refs := places, answer := places } := by
  have hread : db.read none (fun s => .ok (s.functionsNamed r.projectId name)) =
      .ok (db.store.functionsNamed r.projectId name) := by
    rw [read, hopen]
    rfl
  have hmatches : db.referenceMatches r.projectId r.trimmedQuery r.filter =
      .ok (db.store.functionsNamed r.projectId name) := by
    rw [referenceMatches, hparse, hfilter]
    dsimp only
    rw [hread]
    exact congrArg Except.ok (List.filter_eq_self.mpr fun _ _ => rfl)
  rw [rankings, referenceSearch, hmatches, hplaces]
  rfl

/-- Of three rows one has no signature and one no documentation that can be read; the third has a text behind its
parameters. -/
theorem Database.search_rows_of_unreadable :
    let db : Database := { store := .ofWritten [("real f(", ""), ("real f()", "["),
      ("real f(real x, int n)", "\x7b\"param_docs\":\x7b\"1\":\"Count.\",\"7\":\"None.\"\x7d\x7d")] }
    let raw : Store → String → RawScores ℚ := fun _ _ => ⟨fun _ => 0⟩
    let shown : List (Ranked ℚ) := [⟨1, 1, 1⟩, ⟨2, 1, 2⟩, ⟨3, 1, 3⟩]
    db.rankings raw (.ofMode .reference) .reference = .ok { refs := shown, answer := shown } ∧
      ¬ db.ReachesBelow shown ∧
      ∃ response, db.searchAnew raw (.ofMode .reference) = .ok response ∧
        response.results.map (fun result => (result.id, result.paramDocs)) = [(3, [("n", "Count.")])] ∧
        List.Forall₂ (fun shown result => result.Shows shown.1 shown.2.1 shown.2.2)
          (shown.filterMap fun place => (db.readBack? place.id).map (place, ·)) response.results := by
  intro db raw shown
  have hnamed : db.store.functionsNamed 1 "f" = db.store.functions.map db.store.withPath := by
    have hfound : (db.store.functions.filter fun row => db.store.isIn 1 row ∧ row.name = "f") =
        db.store.functions := by
      decide +kernel
    have hsorted : db.store.functions.Pairwise fun a b => Store.declaredBefore a b := by decide +kernel
    rw [Store.functionsNamed, hfound, Store.listed, List.mergeSort_of_pairwise hsorted]
  have hids : (db.store.functionsNamed 1 "f").map (·.id) = [1, 2, 3] := by
    rw [hnamed]
    decide +kernel
  have hscored : [1, 2, 3].map (fun id => (id, (1 : ℚ))) =
      (db.store.functionsNamed 1 "f").map fun row => (row.id, Score.ofNat 1) := by
    rw [← hids, List.map_map]
    exact List.map_congr_left fun _ _ => Prod.ext rfl Nat.cast_one.symm
  have hparse : Query.parse (SearchRequest.ofMode .reference).trimmedQuery = .ok ⟨"f", none⟩ := by decide +kernel
  have hranked := rankings_of_name raw rfl rfl hparse (congrArg Ranked.numbered hscored)
  have hpositions : ∀ place ∈ shown, (db.readBack? place.id).all fun read =>
      read.2.doc.paramDocs.all (0 ≤ ·.1) := by
    decide +kernel
  have hnone : ¬ db.ReachesBelow shown := by
    rintro ⟨place, hplace, row, f, hback, e, he, hnegative⟩
    have hall := hpositions place hplace
    rw [hback] at hall
    exact absurd hnegative (Int.not_lt.mpr (of_decide_eq_true (List.all_eq_true.mp hall e he)))
  have hresults : (db.results shown).map (·.map fun result => (result.id, result.paramDocs)) =
      .ok [(3, [("n", "Count.")])] := by
    decide +kernel
  obtain ⟨response, hresponse, hshows⟩ :=
    ((db.search_rows raw .empty 0 (.ofMode .reference)).2 .reference _ rfl hranked).2 hnone
  refine ⟨hranked, hnone, response, hresponse, ?_, hshows⟩
  have hshown : (db.searchAnew raw (.ofMode .reference)).map (·.results.map fun result =>
      (result.id, result.paramDocs)) = .ok [(3, [("n", "Count.")])] := by
    rw [searchAnew_of_rankings rfl hranked, ← hresults]
    change ((db.results shown).map _).map _ = _
    cases db.results shown <;> rfl
  rw [hresponse] at hshown
  exact Except.ok.inj hshown

/-- A text at the position before the first parameter makes the search break off, in every mode. -/
theorem Database.search_of_negative_position :
    let db : Database :=
      { store := .ofWritten [("real f(real x)", "\x7b\"param_docs\":\x7b\"-1\":\"None.\"\x7d\x7d")] }
    let raw : Store → String → RawScores ℚ := fun _ _ => ⟨fun _ => 0⟩
    ∀ mode : SearchMode, (db.search raw .empty 0 (.ofMode mode)).1 = .error .negativePosition := by
  intro db raw mode
  have hbroken : (db.search raw .empty 0 (.ofMode mode)).1.map (fun _ => ()) = .error .negativePosition := by
    cases mode <;> decide +kernel
  exact eq_error_of_map hbroken

end OverloadDocs
