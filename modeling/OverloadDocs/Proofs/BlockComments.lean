import OverloadDocs.Proofs.Building
import OverloadDocs.Proofs.CommentMargins
import OverloadDocs.Proofs.Recognition

/-!
Block comments that document a declaration. The scanner keeps the content of the comment for the
declaration below it, and the build reads the documentation off that content, not off the comment as it
stands: a margin of stars is looked for a second time in what the first left.
-/

namespace OverloadDocs

namespace Comment

theorem addField_congr {s t : Signature} (h : s.params = t.params) (doc : Documentation) (f : Field) :
    addField (some s) doc f = addField (some t) doc f := by
  have hindex : s.paramIndex? = t.paramIndex? := by
    funext name
    rw [Signature.paramIndex?, h, Signature.paramIndex?]
  simp only [addField, Option.bind_some, hindex]

theorem addFields_congr {s t : Signature} (h : s.params = t.params) (doc : Documentation)
    (fields : List Field) :
    (addFields (some s) doc fields).1 = (addFields (some t) doc fields).1 := by
  induction fields generalizing doc with
  | nil => rfl
  | cons f fs ih =>
      rw [addFields, addFields, addField_congr h]
      cases addField (some t) doc f with
      | ok doc' => exact ih doc'
      | error kind => exact ih doc

/-- Of the signature only the parameters count for what a comment says. -/
theorem normalize_params {s t : Signature} (h : s.params = t.params) (raw : String) :
    (normalize raw (some s)).1 = (normalize raw (some t)).1 :=
  addFields_congr h _ _

end Comment

namespace Source

open Text Token

/-- A block comment ends where it is first closed. -/
theorem blockBody_closed {body : List Char} (hend : ¬ ['*', '/'] <:+: body) (rest : List Char) :
    blockBody (body ++ '*' :: '/' :: rest) = (body, rest) := by
  induction body with
  | nil => rfl
  | cons c body ih =>
      have hbody : ¬ ['*', '/'] <:+: body := fun h => hend (h.trans (List.suffix_cons c body).isInfix)
      have hopen : ∀ rest', c = '*' → body ++ '*' :: '/' :: rest = '/' :: rest' → False := by
        rintro rest' rfl h
        cases body with
        | nil => cases h
        | cons d body =>
            obtain ⟨rfl, -⟩ := List.cons.inj h
            exact hend (List.prefix_append ['*', '/'] body).isInfix
      rw [List.cons_append, blockBody, ih hbody]
      exact hopen

namespace Scanner

theorem advance_blockComment (s : Scanner) (cs : List Char) :
    s.advance '/' ('*' :: cs) = (s.takeBlockComment (blockBody cs).1, (blockBody cs).2) := by
  simp [advance]

/-- A block comment between statements, on a line without code, waits for the next statement. -/
theorem run_blockComment {s : Scanner} (hs : s.statement = none) (hline : s.codeLine < s.line)
    {body : List Char} (hend : ¬ ['*', '/'] <:+: body) (rest : List Char) :
    s.run ('/' :: '*' :: (body ++ '*' :: '/' :: rest)) =
      run { s with
        line := s.line + newlines body
        pending := some ⟨[blockContent body], s.line + newlines body⟩ } rest := by
  rw [run_cons, advance_blockComment, blockBody_closed hend, takeBlockComment, hs]
  have hcode : ¬ (s.codeLine > 0 ∧ s.line = s.codeLine) := by omega
  dsimp only
  rw [addComment, if_neg hcode]
  cases s.pending <;> simp

/-- The scanner below a block comment at the front of a source. -/
def commented (body : List Char) : Scanner where
  line := 1 + newlines body + 1
  pending := some ⟨[blockContent body], 1 + newlines body⟩

theorem pendingText_commented (body : List Char) :
    (commented body).pendingText = String.ofList (blockContent body) :=
  congrArg String.ofList List.intercalate_singleton

theorem run_commented {body : List Char} (hend : ¬ ['*', '/'] <:+: body) (cs : List Char) :
    run {} ('/' :: '*' :: (body ++ '*' :: '/' :: '\n' :: cs)) = (commented body).run cs := by
  rw [run_blockComment rfl (by decide) hend, run_cons, advance_space _ (by decide)]
  rfl

end Scanner

def blockComment (body : String) : String := "/*" ++ body ++ "*/"

/-- A declaration below a block comment is found with the content of the comment. -/
theorem declarations_blockComment {body text : String} (hend : ¬ ['*', '/'] <:+: body.toList)
    (htext : ∀ c ∈ text.toList, IsPlain c) (hcode : ∃ c ∈ text.toList, ¬ isSpace c)
    (hlooks : looksLikeDeclaration (foldBlanks text.toList)) :
    ∃ d, declarations (blockComment body ++ "\n" ++ text ++ ";") = [d] ∧
      d.text = String.ofList (foldBlanks text.toList) ∧
      d.comment = String.ofList (Scanner.blockContent body.toList) ∧ d.forward = true := by
  have hsource : (blockComment body ++ "\n" ++ text ++ ";").toList =
      '/' :: '*' :: (body.toList ++ '*' :: '/' :: '\n' :: (text.toList ++ [';'])) := by
    simp [blockComment]
  obtain ⟨line, endLine, hdeclared⟩ : ∃ line endLine,
      Scanner.declared (Scanner.commented body.toList) text.toList true =
        [⟨String.ofList (foldBlanks text.toList), String.ofList (Scanner.blockContent body.toList),
          line, endLine, true⟩] := by
    rw [Scanner.declared, hlooks, Scanner.pendingText_commented]
    exact ⟨_, _, rfl⟩
  have hrun := Scanner.run_forward (s := Scanner.commented body.toList) rfl htext hcode []
  rw [Scanner.run, hdeclared, ← Scanner.run_commented hend, ← hsource] at hrun
  have hfound : declarations (blockComment body ++ "\n" ++ text ++ ";") = [_] :=
    congrArg (fun s => s.found.reverse) hrun
  exact ⟨_, hfound, rfl, rfl, rfl⟩

end Source

theorem Index.register_empty (supply : Anchors) {s : Signature} (hs : s.Valid) (doc : Documentation) :
    Index.register {} supply (some s) doc =
      .ok ({ entries := [⟨(anchored supply s).1, doc⟩] }, (anchored supply s).2) :=
  register_eq_ok.mpr ⟨rfl, hs, List.not_mem_nil, rfl, rfl⟩

namespace FileBuild

open Source

/-- A declaration that stands for itself is registered with the documentation of its own comment. -/
theorem Progress.index_add {all : List ParsedDeclaration} {p : Progress} {d : ParsedDeclaration}
    (hown : (d.raw.forward && defines all d.signature.key) = false) (hlent : p.forwardComments = [])
    {index : Index} {supply : Anchors}
    (hregister : p.build.index.register p.supply
      (some { d.signature with order := p.build.index.size })
      (Comment.normalize d.raw.comment (some d.signature)).1 = .ok (index, supply)) :
    (p.add all d).build.index = index := by
  have hcomment : (if d.raw.comment = "" then "" else d.raw.comment) = d.raw.comment := by
    split <;> simp_all
  simp only [add, hown, hlent, List.find?_nil, Option.map_none, Option.getD_none, hcomment,
    Bool.false_eq_true, if_false, hregister]

/-- A source with one forward declaration gives one entry, with the documentation of its comment. -/
theorem entries_ofSource_forward (supply : Anchors) (file : String) {source : String}
    {raw : Source.Declaration} (hraw : declarations source = [raw]) (hforward : raw.forward)
    {s : Signature} (hs : Signature.parse raw.text 0 = .ok s) :
    ∃ e, (ofSource supply file source).1.index.entries = [e] ∧ e.signature.unplaced = s ∧
      e.doc = (Comment.normalize raw.comment (some s)).1 := by
  obtain ⟨hwell, horder, hplace, -⟩ := Signature.parse_eq_ok_iff.mp hs
  obtain ⟨placed, hplaced⟩ : ∃ placed : Signature,
      placed = { s with source := ⟨file, raw.line, raw.endLine⟩ } := ⟨_, rfl⟩
  have hparams : placed.params = s.params := by rw [hplaced]
  have hparsed : parseAll { file := file } [raw] = ([⟨raw, placed⟩], []) := by
    simp only [parseAll, DeclarationReader.read, hs, hplaced]
  have hown : (raw.forward && defines [⟨raw, placed⟩] placed.key) = false := by
    simp [defines, hforward]
  have hnumbered : { placed with order := 0 } = placed := by
    rw [hplaced, ← horder]
  have hvalid : placed.Valid := by
    have hwell' : placed.WellFormed := by
      rw [hplaced]
      exact ⟨hwell.name, hwell.paramNames, hwell.paramTypes, hwell.result⟩
    exact hwell'.valid
  have hdoc := Comment.normalize_params hparams raw.comment
  generalize hnormalized : (Comment.normalize raw.comment (some placed)).1 = doc at hdoc
  have hregister : Index.register {} supply (some { placed with order := 0 })
      (Comment.normalize raw.comment (some placed)).1 =
        .ok ({ entries := [⟨(Index.anchored supply placed).1, doc⟩] }, (Index.anchored supply placed).2) := by
    rw [hnumbered, hnormalized]
    exact Index.register_empty supply hvalid doc
  refine ⟨⟨(Index.anchored supply placed).1, doc⟩, ?_, ?_, hdoc⟩
  · rw [ofSource, hraw]
    simp only [hparsed, List.foldl_cons, List.foldl_nil]
    rw [Progress.index_add hown rfl hregister]
  · have hunplaced : (Index.anchored supply placed).1.unplaced = placed.unplaced := rfl
    rw [hunplaced, hplaced]
    exact hplace

/-- A declaration below a block comment is registered with what the content of the comment says. That is
what the comment itself says when its lines have at most a margin. -/
theorem documented_of_blockComment (supply : Anchors) (file : String) {body text : String} {s : Signature}
    (hend : ¬ ['*', '/'] <:+: body.toList) (hs : Signature.parse text 0 = .ok s)
    (hfound : declarations (text ++ ";") ≠ []) :
    ∃ e, (ofSource supply file (blockComment body ++ "\n" ++ text ++ ";")).1.index.entries = [e] ∧
      e.signature.unplaced = s ∧
      e.doc = (Comment.normalize
        (String.ofList (Scanner.blockContent body.toList)) (some s)).1 ∧
      (body ≠ "" → Comment.SingleMargin ((Comment.withoutOpening body.toList).splitOn '\n') →
        e.doc = (Comment.normalize (blockComment body) (some s)).1) := by
  obtain ⟨hwell, -, -, htext⟩ := Signature.parse_eq_ok_iff.mp hs
  have hplain : ∀ c ∈ text.toList, IsPlain c := fun c hc =>
    (inLanguage hwell htext c hc).isPlain
  have hcode := exists_code hwell htext
  have hlooks : looksLikeDeclaration (foldBlanks text.toList) := by
    rw [declarations_forward hplain hcode, Scanner.declared] at hfound
    by_contra hnot
    simp [hnot] at hfound
  obtain ⟨d, hd, hfolded, hcomment, hforward⟩ :=
    declarations_blockComment hend hplain hcode hlooks
  obtain ⟨e, hentries, hsignature, hdoc⟩ := entries_ofSource_forward supply file hd hforward
    (hfolded ▸ parse_folded hs)
  rw [hcomment] at hdoc
  refine ⟨e, hentries, hsignature, hdoc, fun hne hmargin => ?_⟩
  have hbody : body.toList ≠ [] := fun h => hne (String.toList_inj.mp h)
  have hlist : (blockComment body).toList = '/' :: '*' :: (body.toList ++ ['*', '/']) := by
    simp [blockComment]
  rw [hdoc, Comment.normalize_congr]
  rw [hlist, String.toList_ofList]
  exact Comment.contentLines_blockContent hbody hend hmargin

/-- A comment with a margin of stars and a tag. -/
theorem documented_of_tagged_margin :
    ∃ e, (ofSource {} "a.stan" (blockComment "*\n * Adds.\n * @param x the value\n " ++ "\n" ++
        "real f(real x)" ++ ";")).1.index.entries = [e] ∧
      e.doc = (Comment.normalize (blockComment "*\n * Adds.\n * @param x the value\n ") (some
        ⟨"f", [⟨"x", .primitive "real"⟩], .primitive "real", 0, {}, ""⟩)).1 ∧
      e.doc = { summary := "Adds.", paramDocs := [(0, "the value")] } := by
  have hs : Signature.parse "real f(real x)" 0 =
      .ok ⟨"f", [⟨"x", .primitive "real"⟩], .primitive "real", 0, {}, ""⟩ := by decide +kernel
  have hmargin : Comment.SingleMargin ((Comment.withoutOpening
      "*\n * Adds.\n * @param x the value\n ".toList).splitOn '\n') :=
    ⟨by decide +kernel, by decide +kernel, by decide +kernel⟩
  obtain ⟨e, hentries, -, -, hdoc⟩ := documented_of_blockComment {} "a.stan"
    (by decide +kernel : ¬ ['*', '/'] <:+: "*\n * Adds.\n * @param x the value\n ".toList) hs
    (by decide +kernel)
  have hsame := hdoc (by decide) hmargin
  have hread : (Comment.normalize (blockComment "*\n * Adds.\n * @param x the value\n ") (some
      ⟨"f", [⟨"x", .primitive "real"⟩], .primitive "real", 0, {}, ""⟩)).1 =
        { summary := "Adds.", paramDocs := [(0, "the value")] } := by
    decide +kernel
  exact ⟨e, hentries, hsame, hsame.trans hread⟩

/-- Bullets behind a margin are taken for another margin: two conditions become one. -/
theorem blockComment_bullets_joined :
    ¬ ['*', '/'] <:+: "*\n * @throws\n * * x is negative\n * * y is negative\n ".toList ∧
    declarations ("real f(real x)" ++ ";") ≠ [] ∧
    ∃ s, Signature.parse "real f(real x)" 0 = .ok s ∧
      (Comment.normalize
        (blockComment "*\n * @throws\n * * x is negative\n * * y is negative\n ") (some s)).1.failures =
          ["x is negative", "y is negative"] ∧
      ((ofSource {} "a.stan"
        (blockComment "*\n * @throws\n * * x is negative\n * * y is negative\n " ++ "\n" ++
          "real f(real x)" ++ ";")).1.index.entries.map (·.doc.failures)) =
            [["x is negative y is negative"]] :=
  ⟨by decide +kernel, by decide +kernel,
    ⟨"f", [⟨"x", .primitive "real"⟩], .primitive "real", 0, {}, ""⟩, by decide +kernel,
    by decide +kernel, by decide +kernel⟩

end FileBuild

end OverloadDocs
