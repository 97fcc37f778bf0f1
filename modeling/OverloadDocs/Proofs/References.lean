import OverloadDocs.Proofs.LookUps
import OverloadDocs.Proofs.Remembering

/-!
Keys as references. The text of an overload's identity is cut into its name and the list of its types, which is what
the reader of queries takes for a query with this name and these types. A resolver remembers texts only together
with what is read from them, so that neither its size nor what it has resolved before shows in an answer. The key of
a registered signature therefore leads back to it, and with it what the diagnostic of an ambiguous name suggests.
-/

namespace OverloadDocs

open Grammar

/-- The qualified query for the overload of a signature. -/
def Signature.query (s : Signature) : Query := ⟨s.name, some s.paramTypes⟩

/-! ## Keys as queries -/

theorem Query.parse_of_lexemes {text name : String} {params : List Parameter} (hparams : ParamsWellFormed params)
    (h : Token.lexemes text = .ident name :: listLexemes params) :
    Query.parse text = .ok ⟨name, some (params.map (·.type))⟩ := by
  obtain ⟨offset, ts, hscan, hts⟩ := map_lexeme_eq_cons h
  obtain ⟨rest, hrest, _, hlist⟩ := paramList_complete hparams (hts.trans (List.append_nil _).symm)
  obtain rfl := List.map_eq_nil_iff.mp hrest
  obtain ⟨offset', us, rfl, -⟩ := map_lexeme_eq_cons hts
  rw [Query.parse, parseWith_eq_ok, hscan, wholeQuery]
  simp only [hlist]
  rfl

theorem lexemes_identityKey {name : String} {ts : List TypeExpr} (hname : Text.isIdentifier name)
    (hts : ∀ t ∈ ts, t.Valid) :
    Token.lexemes (identityKey name ts) = .ident name :: listLexemes (ts.map .unnamed) := by
  have htext : (identityKey name ts).toList =
      name.toList ++ ('(' :: ((TypeExpr.renderList ", " ts).toList ++ [')'])) := by
    simp [identityKey]
  have htypes : (TypeExpr.renderList ", " ts).toList = [',', ' '].intercalate (ts.map (·.render.toList)) := by
    simp [TypeExpr.renderList, TypeExpr.renderItems_eq_map hts, Function.comp_def]
  have hspelled : ∀ t ∈ ts, ∀ rest, Token.Stops rest →
      Token.lexemesOf (t.render.toList ++ rest) = t.lexemes ++ Token.lexemesOf rest :=
    fun t ht _ hrest => TypeExpr.lexemesOf_render (hts t ht) hrest
  rw [Token.lexemes_eq, htext, Token.lexemesOf_word hname (Token.Stops.cons (by decide) _),
    Token.lexemesOf_symbol (c := '(') (by decide) (by decide), htypes,
    Token.lexemesOf_intercalate _ _ hspelled (Token.Stops.cons (by decide) _),
    Token.lexemesOf_symbol (c := ')') (by decide) (by decide), listLexemes_unnamed]
  simp [Token.symbols, Token.lexemesOf, Token.scanFrom]

/-- The text of an identity is read as the query for it. -/
theorem Query.parse_identityKey {name : String} {ts : List TypeExpr} (hname : Text.isIdentifier name)
    (hts : ∀ t ∈ ts, t.Valid) : Query.parse (identityKey name ts) = .ok ⟨name, some ts⟩ := by
  rw [Query.parse_of_lexemes (paramsWellFormed_unnamed hts) (lexemes_identityKey hname hts), map_type_unnamed]

namespace Signature.WellFormed

variable {s : Signature}

theorem valid_of_mem_paramTypes (h : s.WellFormed) : ∀ t ∈ s.paramTypes, t.Valid :=
  List.forall_mem_map.mpr h.paramTypes

theorem parse_key (h : s.WellFormed) : Query.parse s.key = .ok s.query :=
  Query.parse_identityKey h.name.1 h.valid_of_mem_paramTypes

end Signature.WellFormed

/-! ## What a resolver remembers -/

namespace Resolver

variable {r : Resolver}

/-- What a resolver remembers is read from its text. -/
def Faithful (r : Resolver) : Prop := ∀ entry ∈ r.cache.entries, Query.parse entry.1 = .ok entry.2

theorem faithful_ofIndex (idx : Index) (cacheSize : Int) : (ofIndex idx cacheSize).Faithful := nofun

/-- The answer is the one of a resolver that remembers nothing. -/
theorem Faithful.answer (h : r.Faithful) (target : String) :
    (r.resolveTarget target).1 = ((Query.parse target).mapError TargetError.mk).map r.index.resolve := by
  rw [resolveTarget]
  cases hfound : r.cache.find? target with
  | some q =>
      have hread := h _ (Cache.mem_of_find? hfound)
      dsimp only at hread ⊢
      rw [hread]
      rfl
  | none => cases Query.parse target <;> rfl

theorem Faithful.resolveTarget (h : r.Faithful) (target : String) : (r.resolveTarget target).2.Faithful := by
  rw [Resolver.resolveTarget]
  cases hfound : r.cache.find? target with
  | some q => exact fun entry hentry => h entry (Cache.mem_of_mem_touch hentry)
  | none =>
      dsimp only
      cases hread : Query.parse target with
      | error e => exact h
      | ok q =>
          intro entry hentry
          rcases Cache.mem_insert hentry with rfl | hold
          · exact hread
          · exact h entry hold

theorem index_resolveTarget (r : Resolver) (target : String) : (r.resolveTarget target).2.index = r.index := by
  rw [resolveTarget]
  cases r.cache.find? target with
  | some q => rfl
  | none => cases Query.parse target <;> rfl

/-- The resolver after it has resolved some references, one after the other. -/
def afterTargets (r : Resolver) (targets : List String) : Resolver :=
  targets.foldl (fun r target => (r.resolveTarget target).2) r

theorem Faithful.afterTargets (h : r.Faithful) (targets : List String) :
    (r.afterTargets targets).Faithful ∧ (r.afterTargets targets).index = r.index := by
  induction targets generalizing r with
  | nil => exact ⟨h, rfl⟩
  | cons target targets ih =>
      obtain ⟨hrun, hindex⟩ := ih (h.resolveTarget target)
      exact ⟨hrun, hindex.trans (r.index_resolveTarget target)⟩

end Resolver

/-! ## What a diagnostic suggests -/

namespace Text

/-- What a text quotes last. -/
def lastQuoted (text : String) : String :=
  let behind := (text.toList.reverse.dropWhile (· ≠ '\x60')).tail
  String.ofList (behind.takeWhile (· ≠ '\x60')).reverse

theorem lastQuoted_append {quoted : String} (hquoted : '\x60' ∉ quoted.toList) (front : String) :
    lastQuoted (front ++ "\x60" ++ quoted ++ "\x60") = quoted := by
  have hall : ∀ c ∈ quoted.toList.reverse, decide (c ≠ '\x60') = true := by
    intro c hc
    rw [decide_eq_true_eq]
    rintro rfl
    exact hquoted (List.mem_reverse.mp hc)
  have hreverse : (front ++ "\x60" ++ quoted ++ "\x60").toList.reverse =
      '\x60' :: (quoted.toList.reverse ++ '\x60' :: front.toList.reverse) := by
    simp
  rw [lastQuoted, hreverse, List.dropWhile_cons_of_neg (by decide), List.tail_cons,
    List.takeWhile_append_of_pos hall, List.takeWhile_cons_of_neg (by decide), List.append_nil, List.reverse_reverse,
    String.ofList_toList]

theorem not_mem_identifier {name : String} (h : isIdentifier name) {c : Char} (hc : isIdentPart c = false) :
    c ∉ name.toList := fun hmem => by
  simp [isIdentPart_of_isIdentifier h c hmem] at hc

theorem not_mem_intercalate {c : Char} {sep : List Char} {parts : List (List Char)} (hsep : c ∉ sep)
    (hparts : ∀ part ∈ parts, c ∉ part) : c ∉ sep.intercalate parts := by
  induction parts with
  | nil => exact List.not_mem_nil
  | cons part parts ih =>
      obtain ⟨hpart, htail⟩ := List.forall_mem_cons.mp hparts
      by_cases hempty : parts = []
      · rwa [hempty, List.intercalate_singleton]
      · rw [List.intercalate_cons_of_ne_nil hempty]
        simp [hpart, hsep, ih htail]

end Text

namespace TypeExpr

theorem not_mem_renderList {ts : List TypeExpr} (hts : ∀ t ∈ ts, t.Valid)
    (hquote : ∀ t ∈ ts, '\x60' ∉ t.render.toList) : '\x60' ∉ (renderList ", " ts).toList := by
  rw [renderList, renderItems_eq_map hts, String.toList_intercalate, List.map_map]
  exact Text.not_mem_intercalate (by decide) (List.forall_mem_map.mpr hquote)

theorem not_mem_render {t : TypeExpr} (ht : t.Valid) : '\x60' ∉ t.render.toList := by
  induction t with
  | missing => exact absurd ht not_valid_missing
  | primitive name => exact Text.not_mem_identifier (valid_primitive.mp ht).1 (by decide)
  | array dims elem ih => simp [render, ih (valid_array.mp ht).2]
  | vector => decide
  | rowVector => decide
  | matrix => decide
  | tuple elems ih =>
      obtain ⟨-, helems⟩ := valid_tuple.mp ht
      have hlist := not_mem_renderList helems fun t hmem => ih t hmem (helems t hmem)
      rw [renderList, String.toList_intercalate] at hlist
      simpa [render] using hlist

end TypeExpr

theorem not_mem_identityKey {name : String} {ts : List TypeExpr} (hname : Text.isIdentifier name)
    (hts : ∀ t ∈ ts, t.Valid) : '\x60' ∉ (identityKey name ts).toList := by
  have hlist := TypeExpr.not_mem_renderList hts fun t hmem => TypeExpr.not_mem_render (hts t hmem)
  have hword := Text.not_mem_identifier hname (c := '\x60') (by decide)
  simp [identityKey, hlist, hword]

/-- The reference that a diagnostic suggests, which is what its wording quotes last. -/
def Diagnostic.suggestion (d : Diagnostic) : String := Text.lastQuoted d.message

/-- An ambiguous name comes with the key of the first candidate as a suggestion. -/
theorem Diagnostic.suggestion_ambiguous {q : Query} {s : Signature} {rest : List Signature} (hs : s.WellFormed)
    (hname : s.name = q.name) : (Diagnostic.ambiguous q (s :: rest)).suggestion = s.key := by
  have hquote : '\x60' ∉ s.key.toList := not_mem_identityKey hs.name.1 hs.valid_of_mem_paramTypes
  obtain ⟨front, hmessage⟩ : ∃ front, (Diagnostic.ambiguous q (s :: rest)).message =
      front ++ "\x60); qualify the target by specifying argument types, e.g. \x60" ++ q.name ++ "(" ++
        TypeExpr.renderList ", " s.paramTypes ++ ")\x60" := ⟨_, rfl⟩
  have hopening : "\x60); qualify the target by specifying argument types, e.g. \x60" =
      "\x60); qualify the target by specifying argument types, e.g. " ++ "\x60" := by decide
  have hclosing : ")\x60" = ")" ++ "\x60" := by decide
  have hquoted : (Diagnostic.ambiguous q (s :: rest)).message =
      front ++ "\x60); qualify the target by specifying argument types, e.g. " ++ "\x60" ++ s.key ++ "\x60" := by
    rw [hmessage, hopening, hclosing, Signature.key, identityKey, hname]
    simp only [String.append_assoc]
  rw [suggestion, hquoted, Text.lastQuoted_append hquote]

/-! ## Registered signatures -/

/-- A signature that a text declares, wherever it is placed and whatever anchor it has. -/
def Signature.Declared (s : Signature) : Prop :=
  ∃ text order, Signature.parse text order = .ok s.unplaced

theorem Signature.declared_iff {s : Signature} : s.Declared ↔ s.WellFormed := by
  constructor
  · rintro ⟨text, order, hparse⟩
    have hread := (Signature.parse_eq_ok_iff.mp hparse).1
    exact ⟨hread.name, hread.paramNames, hread.paramTypes, hread.result⟩
  · intro h
    have hread : s.unplaced.WellFormed := ⟨h.name, h.paramNames, h.paramTypes, h.result⟩
    exact ⟨s.render, s.order, Signature.parse_eq_ok_iff.mpr ⟨hread, rfl, rfl, Signature.lexemes_render h⟩⟩

namespace TabledIndex

theorem wellFormed_of_registers {t : TabledIndex} {supply : Anchors} {s : Option Signature}
    {doc : Option Documentation} {r : Registration} (hstep : t.Registers supply s doc r)
    (hs : ∀ sig ∈ s, sig.WellFormed) (ht : ∀ sig ∈ t.signatures, sig.WellFormed) :
    ∀ sig ∈ r.index.signatures, sig.WellFormed := by
  cases hstep with
  | frozen => exact ht
  | absent => exact ht
  | invalid => exact ht
  | duplicate => exact ht
  | entered hopen hsig hvalid hnew =>
      have hread := hs _ hsig
      intro sig hmem
      rw [Index.signatures, TabledIndex.add, List.map_append, List.mem_append] at hmem
      rcases hmem with hold | hmem
      · exact ht sig hold
      · obtain rfl := List.mem_singleton.mp hmem
        exact ⟨hread.name, hread.paramNames, hread.paramTypes, hread.result⟩

theorem wellFormed_afterCalls (supply : Anchors) {calls : List IndexCall}
    (hcalls : ∀ s doc, .register (some s) doc ∈ calls → s.Declared) :
    ∀ s ∈ (afterCalls supply calls).1.signatures, s.WellFormed := by
  induction calls using List.reverseRecOn with
  | nil => exact nofun
  | append_singleton calls call ih =>
      have hearlier := ih fun s doc hmem => hcalls s doc (List.mem_append_left _ hmem)
      rw [afterCalls, List.foldl_append, List.foldl_cons, List.foldl_nil]
      cases call with
      | freeze => exact hearlier
      | register s doc =>
          refine wellFormed_of_registers ((inStep_afterCalls supply calls).registers _ s doc) ?_ hearlier
          rintro sig rfl
          exact Signature.declared_iff.mp (hcalls sig doc (List.mem_append_right _ List.mem_cons_self))

variable {t : TabledIndex}

/-- The query for a registered signature has it as the only answer. -/
theorem InStep.resolve_query (h : t.InStep) {s : Signature} (hs : s ∈ t.signatures) :
    t.toIndex.resolve s.query = ⟨.unique, s.query, [s], false⟩ := by
  have hfind : t.find? s.name s.paramTypes = some s := h.find?_eq_some.mpr ⟨hs, rfl, rfl⟩
  have hmatching : t.matching s.query = [s] := by
    rw [h.matching_eq_find? (q := s.query) rfl]
    exact congrArg Option.toList hfind
  rw [← h.resolve_eq]
  obtain ⟨hnone, -⟩ | ⟨s', hone, hresolve⟩ | ⟨hmany, -⟩ := h.resolve_cases s.query
  · rw [hmatching] at hnone
    contradiction
  · obtain rfl : s' = s := by simpa [hmatching] using hone.symm
    exact hresolve
  · rw [hmatching] at hmany
    contradiction

/-- An ambiguous resolution leads to signatures of the name that it is asked for. -/
theorem InStep.exists_of_ambiguous (h : t.InStep) {q : Query} (hkind : (t.toIndex.resolve q).kind = .ambiguous) :
    ∃ s rest, s ∈ t.signatures ∧ s.name = q.name ∧ t.toIndex.resolve q = ⟨.ambiguous, q, s :: rest, false⟩ := by
  rw [← h.resolve_eq] at hkind ⊢
  obtain ⟨-, hresolve⟩ | ⟨s', -, hresolve⟩ | ⟨hmany, hresolve⟩ := h.resolve_cases q
  · rw [hresolve] at hkind
    contradiction
  · rw [hresolve] at hkind
    contradiction
  · obtain ⟨s, rest, hlist⟩ := List.exists_cons_of_length_pos (Nat.zero_lt_of_lt hmany)
    have hs : s ∈ t.matching q := hlist ▸ List.mem_cons_self
    obtain ⟨hmem, hmatches⟩ := List.mem_filter.mp hs
    exact ⟨s, rest, hmem, (of_decide_eq_true hmatches).1, hlist ▸ hresolve⟩

/-! ## Keys as references -/

/-- Keys lead back. In an index of signatures that texts declare, the key of each registered signature resolves to
it alone, and so does, for the first candidate, what the diagnostic of an ambiguous reference suggests. The size of
the cache and what was resolved before do not matter. -/
theorem resolveTarget_key_afterTargets (supply : Anchors) (calls : List IndexCall)
    (hcalls : ∀ s doc, .register (some s) doc ∈ calls → s.Declared) (cacheSize : Int) (targets : List String) :
    let t := (afterCalls supply calls).1
    let r := (Resolver.ofIndex t.toIndex cacheSize).afterTargets targets
    (∀ s ∈ t.signatures, (r.resolveTarget s.key).1 = .ok ⟨.unique, s.query, [s], false⟩) ∧
      ∀ target res, (r.resolveTarget target).1 = .ok res → res.kind = .ambiguous →
        ∃ s d, res.first? = some s ∧ res.diagnostic? = some d ∧
          ((r.resolveTarget target).2.resolveTarget d.suggestion).1 = .ok ⟨.unique, s.query, [s], false⟩ := by
  intro t r
  have ht : t.InStep := inStep_afterCalls supply calls
  have hread := wellFormed_afterCalls supply hcalls
  obtain ⟨hr, hindex⟩ := (Resolver.faithful_ofIndex t.toIndex cacheSize).afterTargets targets
  -- The key of a signature is found by every resolver over the index.
  have hkey {r' : Resolver} (hr' : r'.Faithful) (hindex' : r'.index = t.toIndex) {s : Signature}
      (hs : s ∈ t.signatures) : (r'.resolveTarget s.key).1 = .ok ⟨.unique, s.query, [s], false⟩ := by
    rw [hr'.answer, (hread s hs).parse_key, hindex']
    exact congrArg Except.ok (ht.resolve_query hs)
  refine ⟨fun s hs => hkey hr hindex hs, fun target res hres hkind => ?_⟩
  rw [hr.answer, hindex] at hres
  cases hq : Query.parse target with
  | error e =>
      rw [hq] at hres
      contradiction
  | ok q =>
      rw [hq] at hres
      obtain rfl := Except.ok.inj hres
      obtain ⟨s, rest, hs, hname, hresolve⟩ := ht.exists_of_ambiguous hkind
      have hindex' := (r.index_resolveTarget target).trans hindex
      refine ⟨s, .ambiguous q (s :: rest), congrArg Resolution.first? hresolve,
        congrArg Resolution.diagnostic? hresolve, ?_⟩
      rw [Diagnostic.suggestion_ambiguous (hread s hs) hname]
      exact hkey (hr.resolveTarget target) hindex' hs

/-- Two overloads, one of them with nested types, behind a cache with room for one text. -/
theorem resolveTarget_key_nested :
    let s : Signature :=
      { name := "mix", params := [{ name := "xs", type := .array 2 (.tuple [.vector, .primitive "int"]) }]
        returnType := .rowVector }
    let s' : Signature := { name := "mix", params := [{ type := .primitive "real" }], returnType := .vector }
    let calls : List IndexCall := [.register (some s) none, .register (some s') none, .freeze]
    let t := (afterCalls {} calls).1
    let r := (Resolver.ofIndex t.toIndex 1).afterTargets ["mix", "mix(", "mix( real )"]
    (∀ s doc, .register (some s) doc ∈ calls → s.Declared) ∧
      t.signatures.map (·.key) = ["mix(array[,] tuple(vector, int))", "mix(real)"] ∧
      ∀ s ∈ t.signatures, (r.resolveTarget s.key).1 = .ok ⟨.unique, s.query, [s], false⟩ := by
  intro s s' calls t r
  have hdeclared : ∀ s doc, .register (some s) doc ∈ calls → s.Declared := by
    intro sig doc hmem
    simp only [calls, List.mem_cons, IndexCall.register.injEq, reduceCtorEq, List.not_mem_nil, or_false,
      Option.some.injEq] at hmem
    obtain ⟨rfl, -⟩ | ⟨rfl, -⟩ := hmem
    · exact Signature.declared_iff.mpr (by decide)
    · exact Signature.declared_iff.mpr (by decide)
  exact ⟨hdeclared, by decide +kernel, (resolveTarget_key_afterTargets {} calls hdeclared 1 _).1⟩

end TabledIndex

end OverloadDocs
