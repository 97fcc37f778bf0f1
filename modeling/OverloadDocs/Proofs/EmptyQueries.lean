import OverloadDocs.Proofs.ErrorPositions
import OverloadDocs.Proofs.QuotedTerms
import OverloadDocs.Proofs.Serving
import OverloadDocs.Proofs.Words

/-!
Queries with nothing to search for. A query of blanks and stars has no terms, is no reference, and finds nothing in
any mode. Only one that is blank counts as empty for the service; another one is refused by the store, and what the
store says becomes a failure of the search. Such a query is never remembered, and no text of a request that is
remembered is its text, unless the filter has bars in it.
-/

namespace OverloadDocs

open Text

/-! ## Terms -/

namespace FullText

/-- A query has no terms just when it consists of blanks and stars. -/
theorem terms_eq_nil {query : String} : terms query = [] ↔ ∀ c ∈ query.toList, isBlank c ∨ c = '*' := by
  have hwords : (∀ word ∈ words query.toList, ∀ c ∈ word, c = '*') ↔ ∀ c ∈ (words query.toList).flatten, c = '*' := by
    simp only [List.mem_flatten, forall_exists_index, and_imp]
    exact ⟨fun h c word hword hc => h word hword c hc, fun h word hword c hc => h c word hword hc⟩
  rw [terms, List.filterMap_eq_nil_iff]
  simp only [ofWord?_eq_none]
  rw [hwords, flatten_words]
  refine forall_congr' fun c => ?_
  rw [List.mem_filter, Bool.not_eq_true', ← Bool.not_eq_true, and_imp]
  exact imp_congr_right fun _ => or_iff_not_imp_left.symm

/-- The text that is searched for is empty just when there are no terms. -/
theorem renderQuery_eq_empty {query : String} : renderQuery query = "" ↔ terms query = [] := by
  rw [renderQuery, ← String.toList_eq_nil_iff, String.toList_ofList]
  cases terms query with
  | nil => exact iff_of_true rfl rfl
  | cons t ts =>
      refine iff_of_false ?_ (List.cons_ne_nil t ts)
      rw [List.map_cons]
      exact intercalate_ne_nil (List.cons_ne_nil _ _) _

theorem terms_trimmed {query : String} (h : terms query = []) : terms (trimmed query) = [] := by
  rw [terms_eq_nil] at h ⊢
  rw [trimmed, String.toList_ofList]
  exact fun c hc => h c ((trim_isInfix query.toList).subset hc)

end FullText

/-! ## Searches -/

namespace Token

/-- Where there are no letters there are no words. -/
theorem ident_notMem_lexemesOf {cs : List Char} (h : ∀ c ∈ cs, isIdentPart c = false) (name : String) :
    Lexeme.ident name ∉ lexemesOf cs := by
  induction cs using tokenInduction with
  | nil =>
      rw [lexemesOf_nil]
      exact List.not_mem_nil
  | space c cs hc ih =>
      rw [lexemesOf_space hc]
      exact ih fun d hd => h d (List.mem_cons_of_mem c hd)
  | word word rest hword hrest =>
      obtain ⟨c, hc⟩ : ∃ c, c ∈ word.toList := by
        refine List.exists_mem_of_ne_nil _ fun hempty => ?_
        rw [isIdentifier, hempty] at hword
        cases hword
      have hpart := isIdentPart_of_isIdentifier hword c hc
      rw [h c (List.mem_append_left _ hc)] at hpart
      cases hpart
  | symbol c cs hspace hstart ih =>
      rw [lexemesOf_symbol hspace hstart, List.mem_append, not_or]
      exact ⟨not_ident_mem_symbols name c, ih fun d hd => h d (List.mem_cons_of_mem c hd)⟩

end Token

/-- A query without terms is no reference. -/
theorem Query.parse_of_no_terms {text : String} (h : FullText.terms text = []) : ∃ e, Query.parse text = .error e := by
  cases hparse : Query.parse text with
  | error e => exact ⟨e, rfl⟩
  | ok q =>
      obtain ⟨name, offset, ts, hscan, -⟩ := Grammar.wholeQuery_eq_ok.mp (Grammar.parseWith_eq_ok.mp hparse)
      have hletters : ∀ c ∈ text.toList, isIdentPart c = false := by
        intro c hc
        rcases FullText.terms_eq_nil.mp h c hc with hblank | rfl
        · rw [← Bool.not_eq_true]
          exact fun hpart => Bool.false_ne_true ((isBlank_of_isIdentPart hpart).symm.trans hblank)
        · decide
      have hmem : Lexeme.ident name ∈ Token.lexemes text := by
        rw [Token.lexemes, hscan]
        exact List.mem_cons_self
      exact absurd hmem (Token.ident_notMem_lexemesOf hletters name)

section

variable {α : Type} [Score α]

/-- A request that asks for something: for a reference, or with terms. -/
def SearchRequest.Asks (r : SearchRequest α) : Prop :=
  r.effectiveMode = SearchMode.reference.name ∨ FullText.terms r.trimmedQuery ≠ []

namespace Database

theorem searchAnew_of_no_terms (db : Database) (raw : Store → String → RawScores α) {r : SearchRequest α}
    {mode : SearchMode} (hmode : SearchMode.ofName? r.effectiveMode = some mode) (href : mode ≠ .reference)
    (hterms : FullText.terms r.trimmedQuery = []) : db.searchAnew raw r = .error (.store .emptyQuery) := by
  have hwords : db.keywordSearch raw r = .error (.store .emptyQuery) := by
    rw [keywordSearch, searchText, if_pos hterms]
  have hranked : db.rankings raw r mode = .error (.store .emptyQuery) := by
    cases mode with
    | reference => exact absurd rfl href
    | keyword =>
        rw [rankings, hwords]
        rfl
    | hybrid =>
        -- Both kinds of search fail, and the keywords come last.
        obtain ⟨e, hparse⟩ := Query.parse_of_no_terms hterms
        have hrefs : db.referenceSearch r = .error (.malformed e) := by
          rw [referenceSearch, referenceMatches, hparse]
          rfl
        rw [rankings, hrefs, hwords]
  rw [searchAnew, hmode]
  dsimp only
  rw [hranked]

/-- What is answered asks for something. -/
theorem asks_of_searchAnew {db : Database} {raw : Store → String → RawScores α} {r : SearchRequest α}
    {response : SearchResponse α} (h : db.searchAnew raw r = .ok response) : r.Asks := by
  rw [SearchRequest.Asks, or_iff_not_imp_left]
  intro href hterms
  cases hmode : SearchMode.ofName? r.effectiveMode with
  | none =>
      rw [searchAnew, hmode] at h
      cases h
  | some mode =>
      have hne : mode ≠ .reference := by
        rintro rfl
        exact href (SearchMode.name_of_ofName? hmode).symm
      rw [db.searchAnew_of_no_terms raw hmode hne hterms] at h
      cases h

theorem search_of_blank (db : Database) (raw : Store → String → RawScores α) {memory : SearchMemory α} {now : Int}
    {r : SearchRequest α} (hblank : r.trimmedQuery = "") : (db.search raw memory now r).1 = .error .emptyQuery := by
  rw [search, if_pos hblank]

/-- A query without terms that is not blank is refused by the store, unless an answer to it is remembered. -/
theorem search_refused (db : Database) (raw : Store → String → RawScores α) {memory : SearchMemory α} {now : Int}
    {r : SearchRequest α} {mode : SearchMode} (hmode : SearchMode.ofName? r.effectiveMode = some mode)
    (href : mode ≠ .reference) (hterms : FullText.terms r.trimmedQuery = []) (hblank : r.trimmedQuery ≠ "")
    (hforgotten : (memory.recall now r).1 = none) :
    (db.search raw memory now r).1 = .error (.store .emptyQuery) := by
  unfold search
  rw [if_neg hblank]
  cases hrecall : if r.useCache then memory.recall now r else (none, memory) with
  | mk recalled memory' =>
      obtain rfl : recalled = none := by
        split at hrecall
        · rwa [hrecall] at hforgotten
        · exact (Prod.mk.inj hrecall).1.symm
      dsimp only
      rw [db.searchAnew_of_no_terms raw hmode href hterms]

end Database

/-! ## What is remembered -/

/-- All that is remembered stands under texts of requests that ask for something. -/
def SearchMemory.Asked (memory : SearchMemory α) : Prop :=
  ∀ entry ∈ memory.entries, ∃ r : SearchRequest α, r.cacheKey = entry.1 ∧ r.Asks

namespace SearchMemory

variable {memory : SearchMemory α}

theorem asked_of_entries_eq_nil (h : memory.entries = []) : memory.Asked := by
  rw [Asked, h]
  exact fun _ => nofun

theorem Asked.search (h : memory.Asked) (db : Database) (raw : Store → String → RawScores α) (now : Int)
    (r : SearchRequest α) : Asked (db.search raw memory now r).2 := by
  intro entry hentry
  rcases db.mem_search raw hentry with hold | ⟨-, hkey, hanew⟩
  · exact h entry hold
  · exact ⟨r, hkey.symm, Database.asks_of_searchAnew hanew⟩

end SearchMemory

end

theorem SearchMode.bar_notMem_name (mode : SearchMode) : '|' ∉ mode.name.toList := by
  cases mode <;> decide

/-- Nothing is remembered for a query without terms, as long as the filter does not read like the end of a part. -/
theorem SearchMemory.Asked.recall_of_no_terms {memory : SearchMemory Float} (h : memory.Asked) (now : Int)
    {r : SearchRequest Float} {mode : SearchMode} (hmode : SearchMode.ofName? r.effectiveMode = some mode)
    (href : mode ≠ .reference) (hterms : FullText.terms r.trimmedQuery = [])
    (hbarless : ∀ f ∈ r.filter, f.Barless) : (memory.recall now r).1 = none := by
  have hname := SearchMode.name_of_ofName? hmode
  have hforgotten : memory.find? r.cacheKey = none := by
    cases hfound : memory.find? r.cacheKey with
    | none => rfl
    | some remembered =>
        obtain ⟨r', hkey, hasks⟩ := h _ (Cache.mem_of_find? hfound)
        have hquery : '|' ∉ r.trimmedQuery.toList := by
          intro hbar
          rcases FullText.terms_eq_nil.mp hterms _ hbar with hblank | hstar
          · exact absurd hblank (by decide)
          · exact absurd hstar (by decide)
        obtain ⟨hsame, hmodes⟩ := SearchRequest.query_mode_of_cacheKey_eq hquery (hname ▸ mode.bar_notMem_name)
          hbarless hkey.symm
        rcases hasks with hreference | hne
        · refine absurd ?_ href
          rw [← hmodes, ← hname] at hreference
          cases mode <;> first | rfl | exact absurd hreference (by decide)
        · exact absurd (hsame ▸ hterms) hne
  rw [SearchMemory.recall, hforgotten]

namespace Service

theorem memory_project (s : Service) (path : String) : (s.project path).2.memory = s.memory := by
  unfold project
  split
  · rfl
  · split <;> rfl

theorem memory_resolveReference (s : Service) (args : Json) (path : String) :
    (s.resolveReference args path).2.memory = s.memory := by
  have hkept := s.memory_project path
  rw [resolveReference]
  cases args.nonEmptyText? "target" with
  | none => rfl
  | some target =>
      cases hproject : s.project path with
      | mk outcome s' =>
          rw [hproject] at hkept
          cases outcome with
          | ok r =>
              dsimp only
              split <;> exact hkept
          | error e =>
              cases e with
              | project root cause => cases cause <;> exact hkept
              | row | refused => exact hkept

theorem memory_indexFunctions (s : Service) (tree : Tree) (args : Json) (path : String) :
    (s.indexFunctions tree args path).2.memory = s.memory ∨
      (s.indexFunctions tree args path).2.memory = s.memory.clear := by
  unfold indexFunctions
  dsimp only
  split
  · exact .inl rfl
  · split
    · exact .inl rfl
    · exact .inl rfl
    · exact .inr rfl

theorem memory_searchFunctions (s : Service) (tree : Tree) (now : Int) (args : Json) :
    (s.searchFunctions tree now args).2.memory = s.memory ∨
      ∃ r, (s.searchFunctions tree now args).2.memory = (s.database.search Store.rawScores s.memory now r).2 := by
  unfold searchFunctions
  split
  · exact .inl rfl
  · split
    · exact .inl rfl
    · exact .inl rfl
    · rename_i path request _ _ project _
      refine .inr ⟨{ request with projectId := project.id }, ?_⟩
      generalize s.database.search Store.rawScores s.memory now _ = searched
      obtain ⟨outcome, memory⟩ := searched
      dsimp only
      split <;> rfl

/-- No call leaves an answer to a query without terms in memory. -/
theorem asked_call {s : Service} (h : s.memory.Asked) (tree : Tree) (now : Int) (readings : Readings) (tool : Tool)
    (args : Json) : (s.call tree now readings tool args).2.memory.Asked := by
  unfold call
  cases args with
  | obj members =>
      cases tool with
      | indexFunctions =>
          dsimp only
          cases s.projectPath tree (.obj members) with
          | error e => exact h
          | ok path =>
              rcases s.memory_indexFunctions tree (.obj members) path with hsame | hcleared
              · dsimp only
                rw [hsame]
                exact h
              · exact SearchMemory.asked_of_entries_eq_nil (congrArg Cache.entries hcleared)
      | resolveReference =>
          dsimp only
          cases s.projectPath tree (.obj members) with
          | error e => exact h
          | ok path =>
              dsimp only
              rw [memory_resolveReference]
              exact h
      | documentFile =>
          obtain ⟨supply, hs⟩ := s.documentFile_snd tree (.obj members)
          dsimp only
          rw [hs]
          exact h
      | searchFunctions =>
          dsimp only
          rcases s.memory_searchFunctions tree now (.obj members) with hsame | ⟨r, hsearched⟩
          · rw [hsame]
            exact h
          · rw [hsearched]
            exact h.search s.database Store.rawScores now r
      | getStatus => exact h
  | null | bool | int | float | str | arr | verbatim => exact h

theorem asked_afterCalls {s : Service} (h : s.memory.Asked) (calls : List ServiceCall) :
    (s.afterCalls calls).memory.Asked := by
  induction calls generalizing s with
  | nil => exact h
  | cons c calls ih => exact ih (asked_call h c.tree c.now c.readings c.tool c.args)

/-! ## Answers -/

/-- A request that is accepted names a mode. -/
theorem exists_mode_of_searchRequest {tree : Tree} {args : Json} {path : String} {request : SearchRequest Float}
    (h : searchRequest tree args = .ok (path, request)) (href : request.mode ≠ SearchMode.reference.name) :
    ∃ mode, SearchMode.ofName? request.effectiveMode = some mode ∧ mode ≠ .reference := by
  have hmode : (SearchMode.ofName? request.mode).isSome := by
    unfold searchRequest at h
    split at h
    · cases h
    · split at h
      · cases h
      · split at h
        · cases h
        · dsimp only at h
          split at h
          · cases h
          · split at h
            · cases h
            · rename_i hvalid
              cases h
              rwa [Bool.not_eq_true, Option.isNone_eq_false_iff] at hvalid
  obtain ⟨mode, hmode⟩ := Option.isSome_iff_exists.mp hmode
  have hname := SearchMode.name_of_ofName? hmode
  have hgiven : request.mode ≠ "" := by
    rw [← hname]
    cases mode <;> decide
  refine ⟨mode, ?_, ?_⟩
  · rwa [SearchRequest.effectiveMode, if_neg hgiven]
  · rintro rfl
    exact href hname.symm

/-- The answer to a query without terms, of which nothing is remembered. -/
theorem searchFunctions_of_no_terms (s : Service) {tree : Tree} (now : Int) {args : Json} {path : String}
    {request : SearchRequest Float} {project : Project} (hrequest : searchRequest tree args = .ok (path, request))
    (hproject : s.database.read none (fun store => .ok (store.project? path)) = .ok (some project))
    (hmode : request.mode ≠ SearchMode.reference.name) (hterms : FullText.terms request.query = [])
    (hforgotten : trimmed request.query ≠ "" →
      (s.memory.recall now { request with projectId := project.id }).1 = none) :
    (s.searchFunctions tree now args).1 = .error (.refused (
      if trimmed request.query = "" then
        ⟨ToolError.emptyQuery, "query has no searchable terms", .obj [("param", .str "query")]⟩
      else .failed "search failed" "empty search query")) := by
  obtain ⟨mode, hvalid, href⟩ := exists_mode_of_searchRequest hrequest hmode
  unfold searchFunctions
  rw [hrequest]
  dsimp only
  rw [hproject]
  dsimp only
  by_cases hblank : trimmed request.query = ""
  · have hsearch : (s.database.search Store.rawScores s.memory now { request with projectId := project.id }).1 =
        .error .emptyQuery :=
      s.database.search_of_blank Store.rawScores hblank
    rw [if_pos hblank, hsearch]
  · have hsearch : (s.database.search Store.rawScores s.memory now { request with projectId := project.id }).1 =
        .error (.store .emptyQuery) :=
      s.database.search_refused Store.rawScores hvalid href (FullText.terms_trimmed hterms) hblank
        (hforgotten hblank)
    rw [if_neg hblank, hsearch]
    rfl

/-- Queries without searchable terms are refused, but not all of them as empty. Let a service be started over any
rows and let it answer any calls. A search for a query of blanks and stars in a project it knows, by keywords or by
both rankings, fails as an empty query when the query is blank. When it is not, the search is reported as a failure
that is not the client's, whatever was remembered before, unless the filter reads like the end of a part of a text. -/
theorem search_of_no_terms (config : Config) (database : Database) (supply : Anchors) (calls : List ServiceCall)
    (tree : Tree) (now : Int) (readings : Readings) (members : List (String × Json)) {path : String}
    {request : SearchRequest Float} {project : Project} :
    let s := afterCalls { config := config, database := database, supply := supply } calls
    searchRequest tree (.obj members) = .ok (path, request) →
    s.database.read none (fun store => .ok (store.project? path)) = .ok (some project) →
    request.mode ≠ SearchMode.reference.name →
    FullText.renderQuery request.query = "" →
    (trimmed request.query = "" →
      (s.call tree now readings .searchFunctions (.obj members)).1 = .error (.refused
        ⟨ToolError.emptyQuery, "query has no searchable terms", .obj [("param", .str "query")]⟩)) ∧
    (trimmed request.query ≠ "" → (∀ f ∈ request.filter, f.Barless) →
      (s.call tree now readings .searchFunctions (.obj members)).1 = .error (.refused
        ⟨ToolError.internal, "search failed", .obj [("error", .str "empty search query")]⟩)) := by
  intro s hrequest hproject hmode hquery
  have hterms := FullText.renderQuery_eq_empty.mp hquery
  constructor
  · intro hblank
    have hanswer := s.searchFunctions_of_no_terms now hrequest hproject hmode hterms
      fun hne => absurd hblank hne
    rw [if_pos hblank] at hanswer
    exact hanswer
  · intro hblank hbarless
    have hempty : SearchMemory.Asked ({ config := config, database := database, supply := supply } : Service).memory :=
      SearchMemory.asked_of_entries_eq_nil rfl
    have hasked : s.memory.Asked := asked_afterCalls hempty calls
    obtain ⟨mode, hvalid, href⟩ := exists_mode_of_searchRequest hrequest hmode
    have hforgotten : (s.memory.recall now { request with projectId := project.id }).1 = none :=
      hasked.recall_of_no_terms now hvalid href (FullText.terms_trimmed hterms) hbarless
    have hanswer := s.searchFunctions_of_no_terms now hrequest hproject hmode hterms fun _ => hforgotten
    rw [if_neg hblank] at hanswer
    exact hanswer

end Service

/-- A folder has no fault at its root. -/
theorem Tree.folderFault?_slash (entries : List (String × Tree)) : (folder entries).folderFault? "/" = none := by
  have hfault : pathFault? "/" = none := by decide +kernel
  have hsteps : Path.steps "/" = [""] := by decide +kernel
  have habsolute : Path.isAbsolute "/" = true := by decide +kernel
  have hget : (folder entries).get "/" = .ok (.folder entries) := by
    simp [get, locate, hfault, hsteps, follow, Tree.at?, bind, Except.bind, pure, Except.pure]
  simp [folderFault?, lookUp, habsolute, hget, isFolder]

namespace Service

/-- The arguments of a search at the root, among the functions called `f`. -/
def searchOf (query : String) : List (String × Json) :=
  [("path", .str "/"), ("query", .str query), ("filters", .obj [("names", .arr [.str "f"])])]

theorem searchRequest_searchOf {query : String} (hquery : query ≠ "") :
    searchRequest (.folder []) (.obj (searchOf query)) = .ok ("/",
      { query := query
        limit := 10
        mode := SearchMode.hybrid.name
        filter := some { names := ["f"], minRelevance := 0 }
        projectId := 0
        useCache := true
        constant := 0 }) := by
  have hclean : Path.clean "/" = "/" := by decide +kernel
  have hfolder : folderPath (.folder []) "/" = .ok "/" := by
    rw [folderPath, Tree.folderFault?_slash]
    exact congrArg Except.ok hclean
  have hpath : (Json.obj (searchOf query)).nonEmptyText? "path" = some "/" := rfl
  have hasked : (Json.obj (searchOf query)).nonEmptyText? "query" = some query := by
    change Option.filter (· ≠ "") (some query) = some query
    simp [hquery]
  rw [searchRequest, hpath]
  dsimp only
  rw [hasked]
  dsimp only
  rw [hfolder]
  rfl

/-- Two queries without terms, after a search that found a function. -/
theorem search_of_blanks_and_stars :
    let s := afterCalls { database := { store := Store.ofOneFunction } }
      [{ tree := .folder [], tool := .searchFunctions, args := .obj (searchOf "f") }]
    (s.call (.folder []) 1 default .searchFunctions (.obj (searchOf " \t"))).1 = .error (.refused
        ⟨ToolError.emptyQuery, "query has no searchable terms", .obj [("param", .str "query")]⟩) ∧
      (s.call (.folder []) 1 default .searchFunctions (.obj (searchOf "* **"))).1 = .error (.refused
        ⟨ToolError.internal, "search failed", .obj [("error", .str "empty search query")]⟩) := by
  intro s
  obtain ⟨memory, hs⟩ := searchFunctions_snd { database := { store := Store.ofOneFunction } } (.folder []) 0
    (.obj (searchOf "f"))
  have hrows : s.database = { store := Store.ofOneFunction } := congrArg Service.database hs
  have hproject : s.database.read none (fun store => .ok (store.project? "/")) =
      .ok (some { id := 1, root := "/" }) := by
    rw [hrows]
    decide +kernel
  constructor
  · refine (search_of_no_terms {} { store := Store.ofOneFunction } {} _ (.folder []) 1 default (searchOf " \t")
      (searchRequest_searchOf (by decide)) hproject (by decide) (by decide +kernel)).1 ?_
    decide +kernel
  · refine (search_of_no_terms {} { store := Store.ofOneFunction } {} _ (.folder []) 1 default (searchOf "* **")
      (searchRequest_searchOf (by decide)) hproject (by decide) (by decide +kernel)).2 ?_ ?_
    · decide +kernel
    · rintro f ⟨⟩
      exact ⟨by decide, by decide⟩

/-- A star has nothing to search for, and the search for it does not fail as one for an empty query. -/
theorem search_of_star :
    let s : Service := { database := { store := Store.ofOneFunction } }
    FullText.renderQuery "*" = "" ∧ ∃ e : ToolError,
      (s.call (.folder []) 0 default .searchFunctions (.obj (searchOf "*"))).1 = .error (.refused e) ∧
        e.code ≠ ToolError.emptyQuery := by
  intro s
  have hempty : FullText.renderQuery "*" = "" := by decide +kernel
  have hproject : s.database.read none (fun store => .ok (store.project? "/")) =
      .ok (some { id := 1, root := "/" }) := by
    decide +kernel
  have hanswer := s.searchFunctions_of_no_terms 0 (searchRequest_searchOf (by decide)) hproject (by decide)
    (FullText.renderQuery_eq_empty.mp hempty) fun _ => rfl
  rw [if_neg (by decide +kernel)] at hanswer
  exact ⟨hempty, _, hanswer, by decide⟩

end Service

end OverloadDocs
