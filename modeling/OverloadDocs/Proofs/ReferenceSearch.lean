import OverloadDocs.Proofs.Loading
import OverloadDocs.Proofs.References

/-!
Reference search and resolution. A search reads the rows of a name back one by one, while a resolution asks the
index that is loaded from all rows of the project. After runs that could read everything they found, each row
shows the function that it reads back as, and no two rows of a project are of one overload. So the search finds
the rows of just those functions that the resolution has as its candidates, in the same order.
-/

namespace OverloadDocs

/-! ## Rows as functions -/

namespace FunctionRow

def documented (row : FunctionRow) : Documented := row.toDocumented.toOption.getD default

/-- A row reads back, and what is shown of it is what is shown of the function that it reads back as. -/
structure Shows (row : FunctionRow) : Prop where
  read : row.toDocumented = .ok row.documented
  mergeable : Index.Mergeable row.documented
  name : row.documented.signature.name = row.name
  key : row.documented.signature.key = row.key
  anchor : row.documented.signature.anchor = row.anchor
  file : row.documented.signature.source.file = row.filePath
  positions : row.documented.doc.paramDocs.Within row.documented.signature.params.length

theorem Holds.shows {row : FunctionRow} {f : Documented} (h : row.Holds f) : row.Shows := by
  have hread := toDocumented_eq_ok h.wellFormed h.storable h.signature h.order h.docJson
  have hdocumented : row.documented = { f with
      signature.source := ⟨row.filePath, row.startLine, row.endLine⟩
      signature.anchor := row.anchor } := by
    rw [documented, hread]
    rfl
  rw [← hdocumented] at hread
  refine ⟨hread, ?_, ?_, ?_, ?_, ?_, ?_⟩
  all_goals rw [hdocumented]
  · exact ⟨h.wellFormed.valid, h.anchor⟩
  · exact h.name.symm
  · exact h.key.symm
  · exact h.positions

end FunctionRow

namespace Store

variable {s : Store}

theorem Readable.shows (h : s.Readable) {projectId : Int} {row : FunctionRow}
    (hrow : row ∈ s.functionsOf projectId) : row.Shows := by
  obtain ⟨stored, hstored, rfl⟩ := mem_listed.mp hrow
  obtain ⟨f, hf⟩ := h stored (List.mem_of_mem_filter hstored)
  exact (hf.withPath s).shows

/-- Runs that could read all they found leave no overload of a project in two files. -/
theorem keysApart_afterVisits {visits : List Visit}
    (hreads : ∀ v ∈ visits, ∃ paths, v.options.Reads v.tree (Path.fromTop v.root) paths) (projectId : Int) :
    (afterVisits visits).KeysApart projectId := by
  induction visits using List.reverseRecOn with
  | nil => exact fun _ _ _ hrow => absurd hrow Bool.false_ne_true
  | append_singleton history last ih =>
      obtain ⟨hearlier, hlast⟩ := List.forall_mem_append.mp hreads
      obtain ⟨paths, hpaths⟩ := hlast last List.mem_cons_self
      obtain ⟨p, states, supply, -, -, hstates, -, -, -, hindexed⟩ :=
        (reached_afterVisits history).invariant.1.indexProject_of_ok last.supply hpaths.found
      have hread := SourceState.read_of_eq hstates
      have hall := hread.paths_files hpaths.readable
      rw [afterVisits_concat]
      by_cases hid : projectId = p.id
      · have hunread : ∀ path, path ∈ ([] : List String) ↔
            path ∈ paths ∧ path ∉ SourceFile.paths (SourceState.files states) := by
          simp [hall]
        rw [hid]
        refine (hindexed.keysApart_iff (SourceFile.nodup_keys_merged supply hread.built_files)
          (SourceFile.file_mem_of_merged supply hread.built_files) hunread).mpr ⟨?_, ?_⟩
        · exact fun _ => nofun
        · exact fun _ => nofun
      · intro path path' key hrow hrow'
        rw [visit, hindexed.otherFunctions _ _ _ (.inl hid)] at hrow hrow'
        exact ih hearlier path path' key hrow hrow'

/-- What is loaded of a project is what its rows read back as, one by one. -/
theorem Consistent.loadIndex_eq_documented (hs : s.Consistent) (hread : s.Readable) {root : String} {p : Project}
    (hp : s.project? (Path.fromTop root) = some p) (hapart : s.KeysApart p.id) (supply : Anchors) :
    s.loadIndex supply root = .ok (⟨(s.functionsOf p.id).map (·.documented), true⟩, supply) := by
  have hshows : ∀ row ∈ s.functionsOf p.id, row.Shows := fun row hrow => hread.shows hrow
  have hrows : (s.functionsOf p.id).map (·.toDocumented) =
      ((s.functionsOf p.id).map (·.documented)).map Except.ok := by
    rw [List.map_map]
    exact List.map_congr_left fun row hrow => (hshows row hrow).read
  have hmergeable : ∀ f ∈ (s.functionsOf p.id).map (·.documented), Index.Mergeable f := by
    intro f hf
    obtain ⟨row, hrow, rfl⟩ := List.mem_map.mp hf
    exact (hshows row hrow).mergeable
  have hkeys : (((s.functionsOf p.id).map (·.documented)).map (·.signature.key)).Nodup := by
    have hsame : ((s.functionsOf p.id).map (·.documented)).map (·.signature.key) =
        (s.functionsOf p.id).map (·.key) := by
      rw [List.map_map]
      exact List.map_congr_left fun row hrow => (hshows row hrow).key
    rw [hsame]
    exact (hs.nodup_keys_functionsOf p.id).mpr hapart
  rw [loadIndex]
  dsimp only
  rw [hp]
  dsimp only
  rw [Index.addRows_eq {} rfl supply hrows hmergeable hkeys]
  rfl

/-- The functions of a name are listed as they are among all of the project. -/
theorem Consistent.functionsNamed_eq (hs : s.Consistent) (projectId : Int) (name : String) :
    s.functionsNamed projectId name = (s.functionsOf projectId).filter (·.name = name) := by
  have hsorted :
      (s.functions.filter fun row => s.isIn projectId row ∧ row.name = name).mergeSort declaredBefore =
        ((s.functions.filter (s.isIn projectId)).mergeSort declaredBefore).filter (·.name = name) := by
    have hperm : (s.functions.filter fun row => s.isIn projectId row ∧ row.name = name).Perm
        (((s.functions.filter (s.isIn projectId)).mergeSort declaredBefore).filter (·.name = name)) := by
      refine .trans ?_ ((List.mergeSort_perm _ _).filter _).symm
      rw [List.filter_filter]
      refine .of_eq (List.filter_congr fun row _ => ?_)
      rw [Bool.and_comm, Bool.decide_and, Bool.decide_eq_true]
    refine hs.eq_of_sorted ((List.mergeSort_perm _ _).trans hperm) (fun row hrow => ?_)
      (pairwise_mergeSort_declaredBefore _) ((pairwise_mergeSort_declaredBefore _).filter _)
    exact List.mem_of_mem_filter (List.mem_mergeSort.mp hrow)
  rw [functionsNamed, functionsOf, listed, listed, List.filter_map, hsorted]
  rfl

theorem Consistent.function?_of_mem (hs : s.Consistent) {projectId : Int} {row : FunctionRow}
    (hrow : row ∈ s.functionsOf projectId) : s.function? row.id = some row := by
  obtain ⟨stored, hstored, rfl⟩ := mem_listed.mp hrow
  have hfind := hs.functions.find?_id.mpr ⟨List.mem_of_mem_filter hstored, rfl⟩
  change (s.functions.find? fun f => decide (f.id = stored.id)).map s.withPath = _
  rw [hfind]
  rfl

end Store

/-! ## Searching the rows -/

variable {α : Type}

theorem exists_foldlM_eq_ok {β γ ε : Type} {f : β → γ → Except ε β} {l : List γ}
    (h : ∀ x ∈ l, ∀ b, ∃ b', f b x = .ok b') (b : β) : ∃ b', l.foldlM f b = .ok b' := by
  induction l generalizing b with
  | nil => exact ⟨b, rfl⟩
  | cons x l ih =>
      obtain ⟨hx, hrest⟩ := List.forall_mem_cons.mp h
      obtain ⟨b', hb⟩ := hx b
      rw [List.foldlM_cons, hb]
      exact ih hrest b'

theorem SearchResult.exists_namedTexts (params : List Parameter) {texts : PositionTexts}
    (h : ∀ e ∈ texts, 0 ≤ e.1) : ∃ named, namedTexts params texts = .ok named := by
  refine exists_foldlM_eq_ok (fun e he named => ?_) []
  dsimp only
  rw [if_neg (Int.not_lt.mpr (h e he))]
  cases params[e.1.toNat]? with
  | none | some p => exact ⟨_, rfl⟩

namespace Database

variable {db : Database}

section

variable (hopen : db.closed = false) {projectId : Int}
  (hshows : ∀ row ∈ db.store.functionsOf projectId, row.Shows)

include hopen hshows

/-- A reference finds the rows of the functions that its query matches. -/
theorem referenceMatches_eq (hs : db.store.Consistent) {query : String} {q : Query}
    (hparse : Query.parse query = .ok q) :
    db.referenceMatches projectId query (none : Option (SearchFilter α)) =
      .ok ((db.store.functionsOf projectId).filter (q.Matches ·.documented.signature)) := by
  rw [referenceMatches, hparse]
  simp only [read, hopen, Bool.false_eq_true, if_false]
  rw [hs.functionsNamed_eq, List.filter_filter]
  refine congrArg Except.ok (List.filter_congr fun row hrow => ?_)
  have hrow := hshows row hrow
  rw [hrow.read, Query.qualified, Bool.eq_iff_iff]
  cases htypes : q.types? with
  | none => simp [Query.matches_of_types?_eq_none htypes, hrow.name]
  | some types =>
      simp only [Query.matches_of_types?_eq_some htypes, hrow.name, Option.isSome_some, Bool.not_true,
        Bool.false_or, Bool.and_eq_true, decide_eq_true_eq]
      exact and_iff_left_of_imp And.left

/-- Rows that are ranked are answered one by one, each at its rank. -/
theorem results_mapIdx (hs : db.store.Consistent) (score : α) {rows : List FunctionRow}
    (hrows : ∀ row ∈ rows, row ∈ db.store.functionsOf projectId) (rank : Nat → Nat) :
    ∃ results, db.results (rows.mapIdx fun i row => ⟨row.id, score, rank i⟩) = .ok results ∧
      results.map (fun r => (r.key, r.anchor, r.file)) =
        rows.map (fun row => (row.key, row.anchor, row.filePath)) ∧
      results.map (·.rank) = (List.range rows.length).map rank := by
  induction rows generalizing rank with
  | nil => exact ⟨[], rfl, rfl, rfl⟩
  | cons row rows ih =>
      obtain ⟨hrow, hrest⟩ := List.forall_mem_cons.mp hrows
      obtain ⟨shown, hresults, hshown, hranks⟩ := ih hrest (fun i => rank (i + 1))
      have hshow := hshows row hrow
      obtain ⟨named, hnamed⟩ := SearchResult.exists_namedTexts row.documented.signature.params
        (fun e he => (hshow.positions.bounded e he).1)
      have hranks' : (List.range (rows.length + 1)).map rank = rank 0 :: shown.map (·.rank) := by
        rw [List.range_succ_eq_map, List.map_cons, List.map_map, hranks]
        rfl
      rw [List.mapIdx_cons, List.map_cons, ← hshown, List.length_cons, hranks', results]
      simp only [read, hopen, Bool.false_eq_true, if_false, hs.function?_of_mem hrow, hshow.read,
        SearchResult.ofRow, hnamed, Except.map, hresults]
      exact ⟨_, rfl, rfl, rfl⟩

variable [Score α]

/-- A search for references answers with the rows of the functions that its query matches, as far as its limit
goes. -/
theorem searchAnew_reference (hs : db.store.Consistent) (raw : Store → String → RawScores α)
    {r : SearchRequest α} (hmode : r.effectiveMode = SearchMode.reference.name) (hfilter : r.filter = none)
    (hproject : r.projectId = projectId) {q : Query} (hparse : Query.parse r.trimmedQuery = .ok q)
    {rows : List FunctionRow}
    (hrows : rows = (db.store.functionsOf projectId).filter (q.Matches ·.documented.signature)) :
    ∃ response, db.searchAnew raw r = .ok response ∧
      response.results.map (fun r => (r.key, r.anchor, r.file)) =
        (rows.take r.effectiveLimit).map (fun row => (row.key, row.anchor, row.filePath)) ∧
      response.results.map (·.rank) = (List.range response.results.length).map (· + 1) ∧
      response.referenceResults = rows.length := by
  have hlisted : ∀ row ∈ rows.take r.effectiveLimit, row ∈ db.store.functionsOf projectId := by
    intro row hrow
    have hmem := List.mem_of_mem_take hrow
    rw [hrows] at hmem
    exact List.mem_of_mem_filter hmem
  obtain ⟨results, hresults, hshown, hranks⟩ :=
    results_mapIdx hopen hshows hs (Score.ofNat 1 : α) hlisted (· + 1)
  have hlength : results.length = (rows.take r.effectiveLimit).length := by
    have hcount := congrArg List.length hshown
    rwa [List.length_map, List.length_map] at hcount
  have hmatches := referenceMatches_eq (α := α) hopen hshows hs hparse
  rw [← hrows] at hmatches
  have hranked : (Ranked.numbered (rows.map fun row => (row.id, (Score.ofNat 1 : α)))).take r.effectiveLimit =
      (rows.take r.effectiveLimit).mapIdx fun i row => ⟨row.id, Score.ofNat 1, i + 1⟩ := by
    refine List.ext_getElem (by simp [Ranked.numbered]) fun i hi hi' => ?_
    simp [Ranked.numbered]
  have hof : SearchMode.ofName? SearchMode.reference.name = some .reference := by decide
  rw [searchAnew, hmode, hof]
  simp only [rankings, referenceSearch, hproject, hfilter, hmatches, Except.map, hranked, hresults]
  refine ⟨_, rfl, hshown, ?_, ?_⟩
  · rw [hranks, hlength]
  · simp [Ranked.numbered]

end

variable [Score α]

theorem searchAnew_malformed (db : Database) (raw : Store → String → RawScores α) {r : SearchRequest α}
    (hmode : r.effectiveMode = SearchMode.reference.name) {e : SyntaxError}
    (hparse : Query.parse r.trimmedQuery = .error e) : db.searchAnew raw r = .error (.malformed e) := by
  have hof : SearchMode.ofName? SearchMode.reference.name = some .reference := by decide
  rw [searchAnew, hmode, hof]
  simp only [rankings, referenceSearch, referenceMatches, hparse, Except.map]

end Database

/-! ## Searching with a memory -/

theorem SearchMemory.AnswersOf.answered [Score α] {memory : SearchMemory α} {db : Database}
    {raw : Store → String → RawScores α} {asked : List (SearchRequest α)}
    (h : memory.AnswersOf db raw asked) :
    memory.AnswersOf db raw (asked.filter fun r => (db.searchAnew raw r).isOk) := by
  intro entry hentry
  obtain ⟨r, hr, hkey, hanew⟩ := h entry hentry
  exact ⟨r, List.mem_filter.mpr ⟨hr, by rw [hanew]; rfl⟩, hkey, hanew⟩

/-- What is answered has one of the modes, so that an answer without a filter comes from a plain request. -/
theorem SearchRequest.plain_of_answered {db : Database} {raw : Store → String → RawScores Float}
    {r : SearchRequest Float} (hanswered : (db.searchAnew raw r).isOk = true) (hfilter : r.filter = none) :
    r.Plain := by
  constructor
  · unfold Database.searchAnew at hanswered
    cases hmode : SearchMode.ofName? r.effectiveMode with
    | none =>
        rw [hmode] at hanswered
        contradiction
    | some mode =>
        rw [← SearchMode.name_of_ofName? hmode]
        cases mode <;> decide
  · intro f hf
    rw [hfilter] at hf
    contradiction

/-- To a search for references without a filter no memory shows. -/
theorem Database.search_reference_eq (db : Database) (raw : Store → String → RawScores Float)
    {r : SearchRequest Float} (hmode : r.effectiveMode = SearchMode.reference.name) (hfilter : r.filter = none)
    (calls : List (SearchCall Float)) (now : Int) :
    (db.search raw (db.memoryAfter raw calls) now r).1.map SearchResponse.unmarked =
      if r.trimmedQuery = "" then .error .emptyQuery else db.searchAnew raw r := by
  rw [← db.search_uncached raw .empty now r]
  refine (db.answersOf_memoryAfter raw calls).answered.search_eq (fun r' hr' hkey => ?_) now now .empty
  have hfilter' : r'.filter = none := by
    cases hsome : r'.filter with
    | none => rfl
    | some f => exact absurd hkey.symm (SearchRequest.cacheKey_ne_of_filter hfilter hsome)
  have hplain : r.Plain := ⟨by rw [hmode]; decide, fun f hf => by rw [hfilter] at hf; contradiction⟩
  have hplain' := SearchRequest.plain_of_answered (List.mem_filter.mp hr').2 hfilter'
  have hsame := hplain'.sameWording hplain hkey
  refine hsame.sameQuestion ⟨fun hhybrid => ?_, fun f hf => by rw [hfilter'] at hf; contradiction⟩
  -- Only a hybrid search has a constant, and this is none.
  rw [hsame.mode, hmode] at hhybrid
  exact absurd hhybrid (by decide)

/-! ## The search and the resolution -/

/-- An answer shows the first candidates of a resolution, as many as a limit allows, in their order and ranked from
one on, and tells how many candidates there are. -/
structure SearchResponse.Follows (response : SearchResponse α) (res : Resolution) (limit : Nat) : Prop where
  results : response.results.map (fun r => (r.key, r.anchor, r.file)) =
    (res.candidates.take limit).map fun s => (s.key, s.anchor, s.source.file)
  ranks : response.results.map (·.rank) = (List.range response.results.length).map (· + 1)
  count : response.referenceResults = res.candidates.length

/-- The candidates of a resolution in the index of some rows are what the rows of the matching functions read
back as. -/
theorem Index.candidates_resolve_rows {rows : List FunctionRow} (hshows : ∀ row ∈ rows, row.Shows)
    (hkeys : (rows.map (·.key)).Nodup) (frozen : Bool) (q : Query) :
    (Index.resolve ⟨rows.map (·.documented), frozen⟩ q).candidates =
      (rows.filter (q.Matches ·.documented.signature)).map (·.documented.signature) := by
  have hdistinct : (Index.signatures ⟨rows.map (·.documented), frozen⟩).Pairwise
      fun s s' => ¬ s.SameOverload s' := by
    rw [signatures, List.map_map, List.pairwise_map]
    refine (List.pairwise_map.mp hkeys).imp_of_mem fun {row row'} hrow hrow' hne hsame => hne ?_
    rw [← (hshows row hrow).key, ← (hshows row' hrow').key]
    exact hsame.key_eq
  rw [candidates_resolve hdistinct, matching, signatures, List.map_map, List.filter_map]
  rfl

/-- A search for references follows the resolution. After runs that could read all they found, the index of every
project can be loaded. A search for references in the project, with no filter and whatever was searched for before,
fails just when the query without white space around it is no reference for the resolver of the index, and answers
with the first candidates of the resolution otherwise. Texts are of less than 2^63 characters. -/
theorem Database.search_reference_afterVisits {visits : List Visit}
    (hreads : ∀ v ∈ visits, ∃ paths, v.options.Reads v.tree (Path.fromTop v.root) paths)
    (hsize : ∀ text ∈ Visit.texts visits, text.length < Nat.pow 2 63) {root : String} {p : Project}
    (hp : (Store.afterVisits visits).project? (Path.fromTop root) = some p) {r : SearchRequest Float}
    (hmode : r.mode = SearchMode.reference.name) (hfilter : r.filter = none) (hproject : r.projectId = p.id)
    (hlimit : 1 ≤ r.limit ∧ r.limit ≤ 100) (raw : Store → String → RawScores Float)
    (calls : List (SearchCall Float)) (now : Int) (supply : Anchors) (cacheSize : Int) :
    let db : Database := { store := Store.afterVisits visits }
    let answer := (db.search raw (db.memoryAfter raw calls) now r).1
    ∃ idx, db.loadIndex supply root = .ok (idx, supply) ∧
      match ((Resolver.ofIndex idx cacheSize).resolveTarget (Text.trimmed r.query)).1 with
      | .error _ => ∃ e, answer = .error e
      | .ok res => ∃ response, answer = .ok response ∧ response.Follows res r.limit.toNat := by
  intro db answer
  have hs : db.store.Consistent := (Store.reached_afterVisits visits).invariant.1
  have hread : db.store.Readable := Store.readable_afterVisits hsize
  have hshows : ∀ row ∈ db.store.functionsOf p.id, row.Shows := fun row hrow => hread.shows hrow
  have hapart : db.store.KeysApart p.id := Store.keysApart_afterVisits hreads p.id
  have hmode' : r.effectiveMode = SearchMode.reference.name := by
    rw [SearchRequest.effectiveMode, hmode]
    decide
  have hanswer : answer.map SearchResponse.unmarked = _ :=
    db.search_reference_eq raw hmode' hfilter calls now
  refine ⟨_, hs.loadIndex_eq_documented hread hp hapart supply, ?_⟩
  rw [(Resolver.faithful_ofIndex _ _).answer, Resolver.ofIndex]
  cases hparse : Query.parse (Text.trimmed r.query) with
  | error e =>
      have hmalformed : ∃ e', (if r.trimmedQuery = "" then .error .emptyQuery else db.searchAnew raw r) =
          .error e' := by
        rw [db.searchAnew_malformed raw hmode' hparse]
        split
        · exact ⟨_, rfl⟩
        · exact ⟨_, rfl⟩
      obtain ⟨e', he'⟩ := hmalformed
      rw [he'] at hanswer
      cases hout : answer with
      | error e'' => exact ⟨e'', rfl⟩
      | ok found =>
          rw [hout] at hanswer
          cases hanswer
  | ok q =>
      have hquery : r.trimmedQuery ≠ "" := by
        intro hempty
        have hnone : (Query.parse "").isOk = false := by decide +kernel
        rw [← hempty, SearchRequest.trimmedQuery, hparse] at hnone
        contradiction
      obtain ⟨response, hanew, hresults, hranks, hcount⟩ :=
        searchAnew_reference rfl hshows hs raw hmode' hfilter hproject hparse rfl
      rw [if_neg hquery, hanew] at hanswer
      cases hout : answer with
      | error e =>
          rw [hout] at hanswer
          cases hanswer
      | ok found =>
          rw [hout] at hanswer
          obtain rfl := Except.ok.inj hanswer
          have hlimit' : r.effectiveLimit = r.limit.toNat := by
            rw [SearchRequest.effectiveLimit, if_neg (by omega), if_neg (by omega)]
          have hcandidates := Index.candidates_resolve_rows hshows
            ((hs.nodup_keys_functionsOf p.id).mpr hapart) true q
          refine ⟨found, rfl, ?_, hranks, ?_⟩
          · rw [hcandidates, ← hlimit', ← List.map_take, List.map_map]
            refine Eq.trans hresults (List.map_congr_left fun row hrow => ?_)
            have hshow := hshows row (List.mem_of_mem_filter (List.mem_of_mem_take hrow))
            rw [Function.comp_apply, hshow.key, hshow.anchor, hshow.file]
          · rw [hcandidates, List.length_map]
            exact hcount

/-- A search, made again, for the first of two overloads in different files. -/
theorem Database.search_reference_of_overloads :
    let visits : List Visit := [.ofPair "real f(real x);" "real f(int n);" {}]
    let db : Database := { store := Store.afterVisits visits }
    ∃ p, db.store.project? "/" = some p ∧
      let r : SearchRequest Float := { query := " f ", limit := 1, mode := SearchMode.reference.name
                                       projectId := p.id, useCache := true, constant := 60 }
      let answer := (db.search Store.rawScores (db.memoryAfter Store.rawScores [.search 0 r]) 1 r).1
      ∃ idx, db.loadIndex {} "/" = .ok (idx, {}) ∧
        match ((Resolver.ofIndex idx 0).resolveTarget (Text.trimmed r.query)).1 with
        | .error _ => ∃ e, answer = .error e
        | .ok res => ∃ response, answer = .ok response ∧ response.Follows res 1 := by
  intro visits db
  obtain ⟨p, -, hp, -⟩ := Store.functionIn?_ofPair "real f(real x);" "real f(int n);" {}
  have hreads : ∀ v ∈ visits, ∃ paths, v.options.Reads v.tree (Path.fromTop v.root) paths := by
    intro v hv
    obtain rfl := List.mem_singleton.mp hv
    refine ⟨["a.stan", "b.stan"], ?_⟩
    change IndexOptions.Reads {} (.ofPair _ _) (Path.fromTop "/") _
    rw [Path.fromTop_slash]
    exact IndexOptions.reads_ofPair _ _
  have hsize : ∀ text ∈ Visit.texts visits, text.length < Nat.pow 2 63 := by decide +kernel
  have hroot : (Store.afterVisits visits).project? (Path.fromTop "/") = some p := by
    rw [Path.fromTop_slash]
    exact hp
  have hlimit : (1 : Int) ≤ 1 ∧ (1 : Int) ≤ 100 := by decide
  exact ⟨p, hp, Database.search_reference_afterVisits hreads hsize hroot rfl rfl rfl hlimit _ _ 1 {} 0⟩

end OverloadDocs
