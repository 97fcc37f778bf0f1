import OverloadDocs.Proofs.RequestText

/-!
Searching with a memory of earlier answers. Whatever was searched for and forgotten before, a remembered answer
is the one that a request with the same text got. So the memory shows nowhere as long as requests of one text
ask for the same, which plain requests do when they agree on what their texts leave out.
-/

namespace OverloadDocs

/-! ## Entries of a memory -/

namespace Cache

variable {κ ν : Type} [DecidableEq κ] {c : Cache κ ν} {entry : κ × ν} {k : κ} {v : ν}

theorem mem_of_find? (h : c.find? k = some v) : (k, v) ∈ c.entries := by
  obtain ⟨⟨k', v'⟩, hfound, rfl⟩ := Option.map_eq_some_iff.mp h
  have hkey := List.find?_some hfound
  obtain rfl : k' = k := of_decide_eq_true hkey
  exact List.mem_of_find?_eq_some hfound

theorem mem_of_mem_erase (h : entry ∈ (c.erase k).entries) : entry ∈ c.entries :=
  List.mem_of_mem_filter h

theorem mem_of_mem_touch (h : entry ∈ (c.touch k).entries) : entry ∈ c.entries := by
  unfold touch at h
  cases hfound : c.find? k with
  | none => rwa [hfound] at h
  | some v =>
      rw [hfound] at h
      rcases List.mem_cons.mp h with rfl | hrest
      · exact mem_of_find? hfound
      · exact List.mem_of_mem_filter hrest

theorem mem_insert (h : entry ∈ (c.insert k v).entries) : entry = (k, v) ∨ entry ∈ c.entries := by
  rcases List.mem_cons.mp (List.mem_of_mem_take h) with hnew | hrest
  · exact .inl hnew
  · exact .inr (List.mem_of_mem_filter hrest)

theorem find?_insert (hcapacity : 0 < c.capacity) (k : κ) (v : ν) : (c.insert k v).find? k = some v := by
  obtain ⟨n, hn⟩ := Nat.exists_eq_add_of_lt hcapacity
  simp [find?, insert, hn]

end Cache

variable {α : Type} [Score α]

/-! ## What an answer depends on -/

/-- An answer without the mark that it was remembered. -/
def SearchResponse.unmarked {α : Type} (response : SearchResponse α) : SearchResponse α :=
  { response with cacheHit := false }

namespace SearchRequest

/-- The constant of the fusion that holds. -/
def effectiveConstant (r : SearchRequest α) : α :=
  if Score.isZero r.constant then Ranked.defaultConstant else r.constant

/-- The request with the memory left aside. -/
def uncached (r : SearchRequest α) : SearchRequest α := { r with useCache := false }

/-- Two requests ask for the same. Only a hybrid search fuses rankings. -/
structure SameQuestion (r r' : SearchRequest α) : Prop where
  query : r.trimmedQuery = r'.trimmedQuery
  mode : r.effectiveMode = r'.effectiveMode
  projectId : r.projectId = r'.projectId
  limit : r.effectiveLimit = r'.effectiveLimit
  filter : r.filter = r'.filter
  constant : r.effectiveMode = SearchMode.hybrid.name → r.effectiveConstant = r'.effectiveConstant

theorem sameQuestion_uncached (r : SearchRequest α) : r.uncached.SameQuestion r :=
  ⟨rfl, rfl, rfl, rfl, rfl, fun _ => rfl⟩

end SearchRequest

theorem SearchMode.name_of_ofName? {name : String} {mode : SearchMode} (h : ofName? name = some mode) :
    mode.name = name := by
  have hname := List.find?_some h
  exact of_decide_eq_true hname

theorem Ranked.fuse_congr {r r' : SearchRequest α} (h : r.effectiveConstant = r'.effectiveConstant)
    (refs texts : List Int) : fuse r.constant refs texts = fuse r'.constant refs texts := by
  unfold SearchRequest.effectiveConstant at h
  unfold fuse
  rw [h]

namespace Database

variable (db : Database) (raw : Store → String → RawScores α)

theorem referenceSearch_congr {r r' : SearchRequest α} (h : r.SameQuestion r') :
    db.referenceSearch r = db.referenceSearch r' := by
  rw [referenceSearch, referenceSearch, h.projectId, h.query, h.filter]

theorem keywordSearch_congr {r r' : SearchRequest α} (h : r.SameQuestion r') :
    db.keywordSearch raw r = db.keywordSearch raw r' := by
  rw [keywordSearch, keywordSearch, h.projectId, h.query, h.filter, h.limit]

theorem rankings_congr {r r' : SearchRequest α} (h : r.SameQuestion r') {mode : SearchMode}
    (hmode : mode.name = r.effectiveMode) : db.rankings raw r mode = db.rankings raw r' mode := by
  cases mode with
  | reference => rw [rankings, rankings, db.referenceSearch_congr h]
  | keyword => rw [rankings, rankings, db.keywordSearch_congr raw h]
  | hybrid =>
      have hfuse := Ranked.fuse_congr (h.constant hmode.symm)
      simp only [rankings, db.referenceSearch_congr h, db.keywordSearch_congr raw h, hfuse]

/-- The answer depends on nothing but what is asked for. -/
theorem searchAnew_congr {r r' : SearchRequest α} (h : r.SameQuestion r') :
    db.searchAnew raw r = db.searchAnew raw r' := by
  rw [searchAnew, searchAnew, h.mode, h.limit]
  cases hmode : SearchMode.ofName? r'.effectiveMode with
  | none => rfl
  | some mode =>
      have hname : mode.name = r.effectiveMode := (SearchMode.name_of_ofName? hmode).trans h.mode.symm
      simp only [db.rankings_congr raw h hname]

theorem map_unmarked_searchAnew (r : SearchRequest α) :
    (db.searchAnew raw r).map SearchResponse.unmarked = db.searchAnew raw r := by
  unfold searchAnew
  split
  · rfl
  · split
    · rfl
    · cases db.results _ with
      | error e => rfl
      | ok results => rfl

/-- A search that does not use the memory answers anew. -/
theorem search_uncached (memory : SearchMemory α) (now : Int) (r : SearchRequest α) :
    (db.search raw memory now r.uncached).1 =
      if r.trimmedQuery = "" then .error .emptyQuery else db.searchAnew raw r := by
  rw [← db.searchAnew_congr raw r.sameQuestion_uncached]
  change (if r.trimmedQuery = "" then _ else _ : _ × _).1 = _
  split
  · rfl
  · cases hanew : db.searchAnew raw r.uncached with
    | error e => rfl
    | ok response => rfl

end Database

/-! ## What is in memory after a search -/

theorem SearchMemory.mem_of_mem_recall {memory : SearchMemory α} {now : Int} {r : SearchRequest α}
    {entry : String × Remembered α} (h : entry ∈ (memory.recall now r).2.entries) : entry ∈ memory.entries := by
  unfold SearchMemory.recall at h
  cases hfound : memory.find? r.cacheKey with
  | none =>
      rw [hfound] at h
      exact h
  | some remembered =>
      rw [hfound] at h
      dsimp only at h
      split at h
      · exact Cache.mem_of_mem_erase h
      · exact Cache.mem_of_mem_touch h

/-- A search keeps in memory what was there and at most adds its own answer. -/
theorem Database.mem_search (db : Database) (raw : Store → String → RawScores α) {memory : SearchMemory α}
    {now : Int} {r : SearchRequest α} {entry : String × Remembered α}
    (h : entry ∈ (db.search raw memory now r).2.entries) :
    entry ∈ memory.entries ∨
      r.useCache = true ∧ entry.1 = r.cacheKey ∧ db.searchAnew raw r = .ok entry.2.response := by
  unfold Database.search at h
  by_cases hquery : r.trimmedQuery = ""
  · rw [if_pos hquery] at h
    exact .inl h
  · rw [if_neg hquery] at h
    cases huse : r.useCache with
    | false =>
        simp only [huse, Bool.false_eq_true, if_false, Bool.false_and] at h
        left
        cases hanew : db.searchAnew raw r <;> rwa [hanew] at h
    | true =>
        simp only [huse, if_true, Bool.true_and] at h
        cases hrecalled : (memory.recall now r).1 with
        | some response =>
            rw [hrecalled] at h
            exact .inl (SearchMemory.mem_of_mem_recall h)
        | none =>
            rw [hrecalled] at h
            cases hanew : db.searchAnew raw r with
            | error e =>
                rw [hanew] at h
                exact .inl (SearchMemory.mem_of_mem_recall h)
            | ok response =>
                rw [hanew] at h
                dsimp only at h
                split at h
                · rcases Cache.mem_insert h with rfl | hold
                  · exact .inr ⟨rfl, rfl, rfl⟩
                  · exact .inl (SearchMemory.mem_of_mem_recall hold)
                · exact .inl (SearchMemory.mem_of_mem_recall h)

/-! ## Runs of searches -/

inductive SearchCall (α : Type) where
  | search (now : Int) (r : SearchRequest α)
  | forget

/-- The requests of calls that let their answers be remembered. -/
def SearchCall.rememberedOf (calls : List (SearchCall α)) : List (SearchRequest α) :=
  calls.filterMap fun
    | .search _ r => if r.useCache then some r else none
    | .forget => none

namespace Database

def afterCall (db : Database) (raw : Store → String → RawScores α) (memory : SearchMemory α) :
    SearchCall α → SearchMemory α
  | .search now r => (db.search raw memory now r).2
  | .forget => memory.clear

/-- The memory after calls, from the first one on. -/
def memoryAfter (db : Database) (raw : Store → String → RawScores α) (calls : List (SearchCall α)) :
    SearchMemory α :=
  calls.foldl (db.afterCall raw) SearchMemory.empty

end Database

/-- Every remembered answer is the one that some of these requests, with its text, gets. -/
def SearchMemory.AnswersOf (memory : SearchMemory α) (db : Database) (raw : Store → String → RawScores α)
    (asked : List (SearchRequest α)) : Prop :=
  ∀ entry ∈ memory.entries, ∃ r ∈ asked,
    r.cacheKey = entry.1 ∧ db.searchAnew raw r = .ok entry.2.response

namespace SearchMemory

variable {db : Database} {raw : Store → String → RawScores α} {memory : SearchMemory α}
  {asked : List (SearchRequest α)}

theorem AnswersOf.mono (h : memory.AnswersOf db raw asked) {more : List (SearchRequest α)}
    (hsub : asked ⊆ more) : memory.AnswersOf db raw more := by
  intro entry hentry
  obtain ⟨r, hr, hrest⟩ := h entry hentry
  exact ⟨r, hsub hr, hrest⟩

/-- What is recalled is the answer that some request with the same text gets. -/
theorem AnswersOf.recalled (h : memory.AnswersOf db raw asked) {now : Int} {r : SearchRequest α}
    {response : SearchResponse α} (hrecalled : (memory.recall now r).1 = some response) :
    ∃ r' ∈ asked, r'.cacheKey = r.cacheKey ∧ db.searchAnew raw r' = .ok response.unmarked := by
  unfold SearchMemory.recall at hrecalled
  cases hfound : memory.find? r.cacheKey with
  | none =>
      rw [hfound] at hrecalled
      contradiction
  | some entry =>
      rw [hfound] at hrecalled
      dsimp only at hrecalled
      split at hrecalled
      · contradiction
      · obtain rfl := Option.some.inj hrecalled
        obtain ⟨r', hr', hkey, hanew⟩ := h _ (Cache.mem_of_find? hfound)
        refine ⟨r', hr', hkey, ?_⟩
        have hunmarked := db.map_unmarked_searchAnew raw r'
        rw [hanew] at hunmarked
        exact hanew.trans hunmarked.symm

theorem AnswersOf.search (h : memory.AnswersOf db raw asked) {r : SearchRequest α}
    (hr : r.useCache = true → r ∈ asked) (now : Int) :
    (db.search raw memory now r).2.AnswersOf db raw asked := by
  intro entry hentry
  rcases db.mem_search raw hentry with hold | ⟨huse, hkey, hanew⟩
  · exact h entry hold
  · exact ⟨r, hr huse, hkey.symm, hanew⟩

end SearchMemory

theorem Database.answersOf_memoryAfter (db : Database) (raw : Store → String → RawScores α)
    (calls : List (SearchCall α)) :
    (db.memoryAfter raw calls).AnswersOf db raw (SearchCall.rememberedOf calls) := by
  induction calls using List.reverseRecOn with
  | nil => exact fun entry hentry => absurd hentry List.not_mem_nil
  | append_singleton calls call ih =>
      rw [memoryAfter, List.foldl_append, List.foldl_cons, List.foldl_nil, SearchCall.rememberedOf,
        List.filterMap_append]
      cases call with
      | forget => exact fun entry hentry => absurd hentry List.not_mem_nil
      | search now r =>
          -- The requests asked so far only grow, so what is remembered stays an answer to one of them.
          have hearlier := ih.mono
            (List.subset_append_left _ (SearchCall.rememberedOf [SearchCall.search now r]))
          refine hearlier.search (fun huse => List.mem_append_right _ ?_) now
          simp [SearchCall.rememberedOf, huse]

/-- A memory whose answers belong to requests that ask for the same shows nowhere. -/
theorem SearchMemory.AnswersOf.search_eq {db : Database} {raw : Store → String → RawScores α}
    {memory : SearchMemory α} {asked : List (SearchRequest α)} (h : memory.AnswersOf db raw asked)
    {r : SearchRequest α}
    (hsame : ∀ r' ∈ asked, r'.cacheKey = r.cacheKey → r'.SameQuestion r)
    (now now' : Int) (memory' : SearchMemory α) :
    (db.search raw memory now r).1.map SearchResponse.unmarked =
      (db.search raw memory' now' r.uncached).1 := by
  rw [db.search_uncached raw]
  have hunmarked := db.map_unmarked_searchAnew raw r
  unfold Database.search
  by_cases hquery : r.trimmedQuery = ""
  · rw [if_pos hquery, if_pos hquery]
    rfl
  · rw [if_neg hquery, if_neg hquery]
    cases hrecall : if r.useCache then memory.recall now r else (none, memory) with
    | mk recalled memory₁ =>
        cases recalled with
        | some response =>
            have hrecalled : (memory.recall now r).1 = some response := by
              split at hrecall
              · rw [hrecall]
              · cases hrecall
            -- What is recalled answers a request that asks for the same, so it is found anew as well.
            obtain ⟨r', hr', hkey, hanew⟩ := h.recalled hrecalled
            rw [← db.searchAnew_congr raw (hsame r' hr' hkey), hanew]
            rfl
        | none =>
            dsimp only
            cases hanew : db.searchAnew raw r with
            | error e => rfl
            | ok response =>
                rw [hanew] at hunmarked
                dsimp only
                split
                · exact hunmarked
                · exact hunmarked

/-! ## Plain requests -/

namespace SearchRequest

/-- Two requests agree on what their texts leave out: the constant where rankings are fused, and the least
relevance beyond two decimals. -/
structure AgreesUnworded (r r' : SearchRequest Float) : Prop where
  constant : r.effectiveMode = SearchMode.hybrid.name → r.effectiveConstant = r'.effectiveConstant
  relevance : ∀ f ∈ r.filter, ∀ f' ∈ r'.filter,
    Score.hundredths f.minRelevance = Score.hundredths f'.minRelevance → f.minRelevance = f'.minRelevance

theorem agreesUnworded_of_eq {r r' : SearchRequest Float} (hconstant : r.constant = r'.constant)
    (hfilter : r.filter = r'.filter) : r.AgreesUnworded r' := by
  constructor
  · intro _
    rw [effectiveConstant, effectiveConstant, hconstant]
  · intro f hf f' hf' _
    have hf'' : f ∈ r'.filter := hfilter ▸ hf
    rw [Option.mem_unique hf'' hf']

theorem SameWording.sameQuestion {r r' : SearchRequest Float} (h : r.SameWording r')
    (hunworded : r.AgreesUnworded r') : r.SameQuestion r' := by
  refine ⟨h.query, h.mode, h.projectId, h.limit, ?_, hunworded.constant⟩
  have hwording := h.filter
  cases hf : r.filter with
  | none =>
      rw [hf] at hwording
      exact (Option.map_eq_none_iff.mp hwording.symm).symm
  | some f =>
      rw [hf] at hwording
      obtain ⟨f', hf', hsame⟩ := Option.map_eq_some_iff.mp hwording.symm
      simp only [SearchFilter.wording, Prod.mk.injEq] at hsame
      obtain ⟨hnames, hpattern, hhundredths⟩ := hsame
      have hrelevance := hunworded.relevance f hf f' hf' hhundredths.symm
      rw [hf']
      refine congrArg some ?_
      calc
        f = ⟨f.filePattern, f.names, f.minRelevance⟩ := rfl
        _ = ⟨f'.filePattern, f'.names, f'.minRelevance⟩ := by rw [hpattern, hnames, hrelevance]

end SearchRequest

/-- Remembering is transparent to plain requests. Whatever plain requests were answered before and whatever was
forgotten in between, the next answer is the one that the request gets without the memory, apart from the mark
that it was remembered. Requests of one text have to agree on what it leaves out. -/
theorem Database.search_memoryAfter_eq (db : Database) (raw : Store → String → RawScores Float)
    {calls : List (SearchCall Float)} {r : SearchRequest Float}
    (hplain : ∀ r' ∈ r :: SearchCall.rememberedOf calls, r'.Plain)
    (hunworded : ∀ r' ∈ SearchCall.rememberedOf calls, r'.cacheKey = r.cacheKey → r'.AgreesUnworded r)
    (now now' : Int) (memory : SearchMemory Float) :
    (db.search raw (db.memoryAfter raw calls) now r).1.map SearchResponse.unmarked =
      (db.search raw memory now' r.uncached).1 := by
  obtain ⟨hr, hearlier⟩ := List.forall_mem_cons.mp hplain
  refine (db.answersOf_memoryAfter raw calls).search_eq (fun r' hr' hkey => ?_) now now' memory
  exact ((hearlier r' hr').sameWording hr hkey).sameQuestion (hunworded r' hr' hkey)

/-- The rows of a project with the function of one source, `real f(real x);`. -/
def Store.ofOneFunction : Store where
  projects := [{ id := 1, root := "/" }]
  files := [{ id := 1, projectId := 1, path := "a.stan", hash := Digest.ofText "real f(real x);" }]
  functions := [{ id := 1, fileId := 1, name := "f", signature := "real f(real x)", key := "f(real)"
                  docJson := "\x7b\x7d" }]
  lastProject := 1
  lastFile := 1
  lastFunction := 1

/-- The next search after a hybrid one, the same one again, and a change of the rows. -/
theorem Database.search_after_hybrid_searches :
    let r : SearchRequest Float :=
      { query := "f", projectId := 1, useCache := true, constant := 60
        filter := some { names := ["f", "g"], minRelevance := 0 } }
    let memory := Database.memoryAfter { store := Store.ofOneFunction } Store.rawScores
      [.search 0 r, .forget, .search 1 r, .search 2 { r with query := "g" }]
    (Database.search { store := Store.ofOneFunction } Store.rawScores memory 3 r).1.map
        SearchResponse.unmarked =
      (Database.search { store := Store.ofOneFunction } Store.rawScores .empty 3 r.uncached).1 := by
  intro r memory
  refine Database.search_memoryAfter_eq _ _ ?_ (fun r' hr' _ => ?_) 3 3 .empty
  · decide +kernel
  · have hasked : r' ∈ [r, r, { r with query := "g" }] := hr'
    simp only [List.mem_cons, List.not_mem_nil, or_false] at hasked
    rcases hasked with rfl | rfl | rfl
    all_goals exact SearchRequest.agreesUnworded_of_eq rfl rfl

/-! ## Requests with the same text -/

theorem SearchMemory.recall_of_find? {memory : SearchMemory α} {r : SearchRequest α} {entry : Remembered α}
    {now : Int} (hfound : memory.find? r.cacheKey = some entry) (hnow : now ≤ entry.expires) :
    (memory.recall now r).1 = some { entry.response with cacheHit := true } := by
  have hcounts : ¬ entry.expires < now := by omega
  rw [SearchMemory.recall, hfound]
  dsimp only
  rw [if_neg hcounts]

namespace Database

variable (db : Database) (raw : Store → String → RawScores α) {memory : SearchMemory α} {r : SearchRequest α}
  {now : Int} {response : SearchResponse α}

/-- An answer with results that is not remembered yet is remembered. -/
theorem search_of_find?_none (huse : r.useCache = true) (hquery : r.trimmedQuery ≠ "")
    (hfresh : memory.find? r.cacheKey = none) (hanew : db.searchAnew raw r = .ok response)
    (hresults : response.results.isEmpty = false) :
    (db.search raw memory now r).2 =
      Cache.insert memory r.cacheKey ⟨response, now + r.effectiveLifetime⟩ := by
  have hrecall : memory.recall now r = (none, memory) := by rw [SearchMemory.recall, hfresh]
  unfold search
  rw [if_neg hquery]
  simp only [huse, hrecall, hanew, hresults, if_true, Bool.not_false, Bool.and_self]

theorem search_of_recalled (huse : r.useCache = true) (hquery : r.trimmedQuery ≠ "")
    (hrecalled : (memory.recall now r).1 = some response) :
    (db.search raw memory now r).1 = .ok response := by
  unfold search
  rw [if_neg hquery]
  simp only [huse, hrecalled, if_true]

/-- A request gets the answer remembered for another one with its text, as long as this may be remembered. -/
theorem search_of_cacheKey_eq (hcapacity : 0 < memory.capacity) (huse : r.useCache = true)
    (hquery : r.trimmedQuery ≠ "") (hfresh : memory.find? r.cacheKey = none)
    (hanew : db.searchAnew raw r = .ok response) (hresults : response.results.isEmpty = false)
    {r' : SearchRequest α} (huse' : r'.useCache = true) (hquery' : r'.trimmedQuery ≠ "")
    (hkey : r'.cacheKey = r.cacheKey) {now' : Int} (hnow : now' ≤ now + r.effectiveLifetime) :
    (db.search raw (db.search raw memory now r).2 now' r').1 = .ok { response with cacheHit := true } := by
  have hfound : (db.search raw memory now r).2.find? r'.cacheKey =
      some ⟨response, now + r.effectiveLifetime⟩ := by
    rw [db.search_of_find?_none raw huse hquery hfresh hanew hresults, hkey]
    exact Cache.find?_insert hcapacity r.cacheKey _
  exact db.search_of_recalled raw huse' hquery' (SearchMemory.recall_of_find? hfound hnow)

end Database

/-- A request for the references to `f` among functions of some names. -/
def SearchRequest.ofNames (names : List String) : SearchRequest Float where
  query := "f"
  mode := SearchMode.reference.name
  filter := some { names := names, minRelevance := 0 }
  projectId := 1
  useCache := true
  constant := 60

/-- Two names and one that is the two joined by a comma are remembered under the same text. -/
theorem SearchRequest.cacheKey_ofNames_joined :
    (SearchRequest.ofNames ["f,g"]).cacheKey = (SearchRequest.ofNames ["f", "g"]).cacheKey := by
  have hjoined : ",".intercalate ["f,g"] = ",".intercalate ["f", "g"] := by decide +kernel
  unfold cacheKey
  simp only [SearchRequest.ofNames, hjoined]
  rfl

/-- Once a search among the functions `f` and `g` is remembered, one among the functions named `f,g` finds
what it would not find by itself. -/
theorem Database.search_memoryAfter_joined_names :
    let db : Database := { store := Store.ofOneFunction }
    let memory := db.memoryAfter Store.rawScores [.search 0 (SearchRequest.ofNames ["f", "g"])]
    (db.search Store.rawScores memory 0 (SearchRequest.ofNames ["f,g"])).1.map (·.results.length) = .ok 1 ∧
      (db.search Store.rawScores memory 0 (SearchRequest.ofNames ["f,g"]).uncached).1.map
        (·.results.length) = .ok 0 := by
  intro db memory
  have hfirst : (db.searchAnew Store.rawScores (.ofNames ["f", "g"])).map (·.results.length) = .ok 1 := by
    decide +kernel
  obtain ⟨response, hanew, hcount⟩ : ∃ response,
      db.searchAnew Store.rawScores (.ofNames ["f", "g"]) = .ok response ∧ response.results.length = 1 := by
    cases hanew : db.searchAnew Store.rawScores (.ofNames ["f", "g"]) with
    | error e =>
        rw [hanew] at hfirst
        contradiction
    | ok response =>
        rw [hanew] at hfirst
        exact ⟨response, rfl, Except.ok.inj hfirst⟩
  have hresults : response.results.isEmpty = false := by
    rw [List.isEmpty_eq_false_iff, ← List.length_pos_iff, hcount]
    decide
  constructor
  · have hcapacity : 0 < (SearchMemory.empty : SearchMemory Float).capacity := by decide
    have hnow : (0 : Int) ≤ 0 + (SearchRequest.ofNames ["f", "g"]).effectiveLifetime := by decide
    have hquery : (SearchRequest.ofNames ["f", "g"]).trimmedQuery ≠ "" := by decide +kernel
    have hquery' : (SearchRequest.ofNames ["f,g"]).trimmedQuery ≠ "" := by decide +kernel
    have hfresh : (SearchMemory.empty : SearchMemory Float).find?
        (SearchRequest.ofNames ["f", "g"]).cacheKey = none := rfl
    have hagain := db.search_of_cacheKey_eq Store.rawScores hcapacity rfl hquery hfresh hanew hresults rfl
      hquery' SearchRequest.cacheKey_ofNames_joined hnow
    change (db.search Store.rawScores (db.search Store.rawScores .empty 0 (.ofNames ["f", "g"])).2 0
      (.ofNames ["f,g"])).1.map _ = _
    rw [hagain]
    exact congrArg Except.ok hcount
  · rw [db.search_uncached Store.rawScores]
    decide +kernel

end OverloadDocs
