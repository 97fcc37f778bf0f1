import Mathlib.Data.List.Forall2
import OverloadDocs.Proofs.Accounting
import OverloadDocs.Proofs.LineEndings

/-!
Builds do not depend on line endings. Two scanners, one for each spelling of a source, take the same pieces off
it: they keep the same lines, blocks and codes, statements with the same words, and comments that differ in
carriage returns only. So the declarations of both are read alike and documented alike.
-/

namespace OverloadDocs

open Text

namespace Source

/-- The second declaration is the first, with the comment in the other spelling. -/
structure Declaration.Respelled (d d' : Declaration) : Prop where
  text : d'.text = d.text
  comment : WithReturns d.comment.toList d'.comment.toList
  line : d'.line = d.line
  endLine : d'.endLine = d.endLine
  forward : d'.forward = d.forward

structure Statement.Respelled (t t' : Statement) : Prop where
  words : SameWords t.reversed.reverse t'.reversed.reverse
  line : t'.line = t.line
  comment : WithReturns t.comment.toList t'.comment.toList

structure Pending.Respelled (m m' : Pending) : Prop where
  parts : List.Forall₂ WithReturns m.reversed m'.reversed
  line : m'.line = m.line

theorem joinWith_withReturns {parts parts' : List (List Char)} (h : List.Forall₂ WithReturns parts parts') :
    WithReturns (joinWith ['\n'] parts) (joinWith ['\n'] parts') := by
  induction h with
  | nil => exact .nil
  | @cons part part' parts parts' hpart hparts ih =>
    cases hparts with
    | nil =>
      rw [joinWith, List.intercalate_singleton, joinWith, List.intercalate_singleton]
      exact hpart
    | cons =>
      rw [joinWith, List.intercalate_cons_cons, joinWith, List.intercalate_cons_cons, List.append_assoc,
        List.append_assoc]
      exact hpart.append (.char oneSpelling_newline ih)

namespace Scanner

/-- The second scanner knows what the first does, of a source in the other spelling. -/
structure Respelled (s s' : Scanner) : Prop where
  line : s'.line = s.line
  found : List.Forall₂ Declaration.Respelled s.found s'.found
  blocks : s'.blocks = s.blocks
  statement : Option.Rel Statement.Respelled s.statement s'.statement
  pending : Option.Rel Pending.Respelled s.pending s'.pending
  codeLine : s'.codeLine = s.codeLine

namespace Respelled

variable {s s' : Scanner}

theorem front : Respelled {} {} := ⟨rfl, .nil, rfl, .none, .none, rfl⟩

theorem statement_cases (h : Respelled s s') :
    (s.statement = none ∧ s'.statement = none) ∨
      ∃ t t', s.statement = some t ∧ s'.statement = some t' ∧ t.Respelled t' := by
  have hstatement := h.statement
  cases hs : s.statement <;> cases hs' : s'.statement <;> rw [hs, hs'] at hstatement <;> cases hstatement
  · exact .inl ⟨rfl, rfl⟩
  · exact .inr ⟨_, _, rfl, rfl, ‹_›⟩

theorem isNone_statement (h : Respelled s s') : s'.statement.isNone = s.statement.isNone := by
  rcases h.statement_cases with ⟨hs, hs'⟩ | ⟨t, t', hs, hs', -⟩
  · rw [hs, hs']
  · rw [hs, hs']
    rfl

theorem pendingText (h : Respelled s s') : WithReturns s.pendingText.toList s'.pendingText.toList := by
  have hpending := h.pending
  rw [Scanner.pendingText, Scanner.pendingText]
  cases hs : s.pending <;> cases hs' : s'.pending <;> rw [hs, hs'] at hpending <;> cases hpending
  · exact .nil
  · rename_i hparts
    rw [String.toList_ofList, String.toList_ofList]
    exact joinWith_withReturns (List.forall₂_reverse_iff.mpr hparts.parts)

theorem statementText (h : Respelled s s') : s'.statementText = s.statementText := by
  rw [Scanner.statementText, Scanner.statementText]
  rcases h.statement_cases with ⟨hs, hs'⟩ | ⟨t, t', hs, hs', ht⟩ <;> rw [hs, hs']
  exact congrArg (joinWith [' ']) ht.words.words_eq.symm

theorem inFunctionScope (h : Respelled s s') : s'.inFunctionScope = s.inFunctionScope := by
  rw [Scanner.inFunctionScope, h.blocks, Scanner.inFunctionScope]

theorem markCode (h : Respelled s s') : Respelled s.markCode s'.markCode :=
  { h with codeLine := h.line }

theorem dropPending (h : Respelled s s') : Respelled s.dropPending s'.dropPending :=
  { h with pending := .none }

theorem onward (h : Respelled s s') (k : Nat) :
    Respelled { s with line := s.line + k } { s' with line := s'.line + k } :=
  { h with line := by rw [h.line] }

/-- A statement is the same after one space as after several. -/
theorem gap (h : Respelled s s') {t t' : Statement} (ht : t.Respelled t') {gap gap' : List Char}
    (hne : gap ≠ []) (hne' : gap' ≠ []) (hgap : gap.all isBlank) (hgap' : gap'.all isBlank) :
    Respelled { s with statement := some { t with reversed := gap ++ t.reversed } }
      { s' with statement := some { t' with reversed := gap' ++ t'.reversed } } := by
  refine { h with statement := .some { ht with words := ?_ } }
  rw [List.reverse_append, List.reverse_append]
  exact ht.words.gap (by simpa using hne) (by simpa using hne') (by simpa using hgap) (by simpa using hgap')

theorem addSpace (h : Respelled s s') : Respelled s.addSpace s'.addSpace := by
  rw [Scanner.addSpace, Scanner.addSpace]
  rcases h.statement_cases with ⟨hs, hs'⟩ | ⟨t, t', hs, hs', ht⟩ <;> rw [hs, hs']
  · exact h
  · exact h.gap ht (List.cons_ne_nil ' ' []) (List.cons_ne_nil ' ' []) (by decide) (by decide)

theorem addSpace_twice (h : Respelled s s') : Respelled s.addSpace s'.addSpace.addSpace := by
  rw [Scanner.addSpace, Scanner.addSpace, Scanner.addSpace]
  rcases h.statement_cases with ⟨hs, hs'⟩ | ⟨t, t', hs, hs', ht⟩ <;> rw [hs, hs']
  · simp only [hs']
    exact h
  · exact h.gap ht (List.cons_ne_nil ' ' []) (List.cons_ne_nil ' ' [' ']) (by decide) (by decide)

theorem addCode (h : Respelled s s') {cs cs' : List Char} (hcs : WithReturns cs cs') :
    Respelled (s.addCode cs) (s'.addCode cs') := by
  rw [Scanner.addCode, Scanner.addCode]
  rcases h.statement_cases with ⟨hs, hs'⟩ | ⟨t, t', hs, hs', ht⟩ <;> rw [hs, hs']
  · refine { h with statement := .some ⟨?_, h.line, h.pendingText⟩, pending := .none }
    rw [List.reverse_reverse, List.reverse_reverse]
    exact (SameWords.refl []).append hcs
  · refine { h with statement := .some { ht with words := ?_ } }
    rw [List.reverse_append, List.reverse_append, List.reverse_reverse, List.reverse_reverse]
    exact ht.words.append hcs

theorem addComment (h : Respelled s s') {body body' : List Char} (hbody : WithReturns body body')
    (lineComment : Bool) (start : Nat) :
    Respelled (s.addComment body lineComment start) (s'.addComment body' lineComment start) := by
  have hfresh : Respelled { s with pending := some ⟨[body], s.line⟩ }
      { s' with pending := some ⟨[body'], s'.line⟩ } :=
    { h with pending := .some ⟨.cons hbody .nil, h.line⟩ }
  have hcode : (s'.codeLine > 0 ∧ start = s'.codeLine) ↔ s.codeLine > 0 ∧ start = s.codeLine := by
    rw [h.codeLine]
  have hpending := h.pending
  rw [Scanner.addComment, Scanner.addComment]
  simp only [hcode]
  split
  · exact h.dropPending
  · cases hs : s.pending <;> cases hs' : s'.pending <;> rw [hs, hs'] at hpending <;> cases hpending
    · exact hfresh
    · rename_i m m' hm
      have hnear : s'.line - m'.line = s.line - m.line := by rw [h.line, hm.line]
      simp only [hnear]
      split
      · exact { h with pending := .some ⟨.cons hbody hm.parts, h.line⟩ }
      · exact hfresh

theorem takeBlockComment (h : Respelled s s') {body body' : List Char} (hbody : WithReturns body body') :
    Respelled (s.takeBlockComment body) (s'.takeBlockComment body') := by
  have hafter := h.onward (newlines body)
  rw [Scanner.takeBlockComment, Scanner.takeBlockComment, hbody.newlines_eq, h.line]
  rw [h.line] at hafter
  rcases h.statement_cases with ⟨hs, hs'⟩ | ⟨t, t', hs, hs', -⟩ <;> rw [hs, hs']
  · have hadded := hafter.addComment (blockContent_withReturns hbody) false s.line
    simpa only [hs, hs'] using hadded
  · have hadded := hafter.addSpace
    simpa only [hs, hs'] using hadded

theorem takeLineComment (h : Respelled s s') {body ending : List Char} (hbody : ∀ c ∈ body, OneSpelling c)
    (hending : IsReturn ending) :
    Respelled (s.takeLineComment body) (s'.takeLineComment (body ++ ending)) := by
  have hcontent : ∀ c ∈ lineContent body, OneSpelling c := fun c hc => hbody c (lineContent_subset body hc)
  rw [Scanner.takeLineComment, Scanner.takeLineComment, lineContent_append body hending, h.line]
  rcases h.statement_cases with ⟨hs, hs'⟩ | ⟨t, t', hs, hs', -⟩ <;> rw [hs, hs']
  · exact h.addComment (.refl hcontent) true s.line
  · exact h

theorem takeLiteral (h : Respelled s s') {l l' : Literal} (htext : WithReturns l.text l'.text)
    (hlines : l'.lines = l.lines) : Respelled (s.takeLiteral l) (s'.takeLiteral l') := by
  rw [Scanner.takeLiteral, Scanner.takeLiteral, hlines]
  exact ((h.addCode (.char ⟨by decide, by decide⟩ htext)).onward l.lines).markCode

theorem closeBrace (h : Respelled s s') : Respelled s.closeBrace s'.closeBrace :=
  markCode { h with
    blocks := by rw [h.blocks]
    statement := .none
    pending := .none }

theorem endStatement (h : Respelled s s') (forward : Bool) :
    (s'.endStatement forward).2 = (s.endStatement forward).2 ∧
      Respelled (s.endStatement forward).1 (s'.endStatement forward).1 := by
  rw [Scanner.endStatement, Scanner.endStatement, h.statementText, h.inFunctionScope]
  rcases h.statement_cases with ⟨hs, hs'⟩ | ⟨t, t', hs, hs', ht⟩ <;> rw [hs, hs']
  · exact ⟨rfl, h⟩
  · dsimp only
    split
    · refine ⟨rfl, { h with found := .cons ?_ h.found, statement := .none }⟩
      exact ⟨rfl, ht.comment, ht.line, h.line, rfl⟩
    · exact ⟨rfl, { h with statement := .none }⟩

end Respelled

/-- Two scanners, each with the text it leaves, of a source in two spellings. -/
def RespelledLeaving (x x' : Scanner × List Char) : Prop := Respelled x.1 x'.1 ∧ WithReturns x.2 x'.2

namespace Respelled

variable {s s' : Scanner}

theorem openBrace (h : Respelled s s') {rest rest' : List Char} (hrest : WithReturns rest rest') :
    RespelledLeaving (s.openBrace rest) (s'.openBrace rest') := by
  obtain ⟨hfound, hended⟩ := h.endStatement false
  obtain ⟨hbody, hline⟩ := skipBody_withReturns hrest 0 s.line
  rw [Scanner.openBrace, Scanner.openBrace, h.line, h.statementText, h.blocks]
  generalize s.endStatement false = e at hfound hended
  generalize s'.endStatement false = e' at hfound hended
  obtain ⟨ended, found⟩ := e
  obtain ⟨ended', found'⟩ := e'
  obtain rfl : found' = found := hfound
  cases found' with
  | true => exact ⟨markCode { hended with line := hline, pending := .none }, hbody⟩
  | false => exact ⟨markCode { hended with blocks := rfl }, hrest⟩

theorem advance (h : Respelled s s') {c : Char} (hc : OneSpelling c) {cs cs' : List Char}
    (hcs : WithReturns cs cs') : RespelledLeaving (s.advance c cs) (s'.advance c cs') := by
  have hstar : cs'.head? = some '*' ↔ cs.head? = some '*' := hcs.head?_eq_some_iff (by decide) (by decide)
  have hslash : cs'.head? = some '/' ↔ cs.head? = some '/' := hcs.head?_eq_some_iff (by decide) (by decide)
  have hinclusion : inclusion.isPrefixOf (c :: cs') = inclusion.isPrefixOf (c :: cs) :=
    (WithReturns.char hc hcs).isPrefixOf_eq (by decide) (by decide)
  have hline : ∀ ds ds', WithReturns ds ds' → RespelledLeaving
      (s.takeLineComment (lineBody ds).1, (lineBody ds).2)
      (s'.takeLineComment (lineBody ds').1, (lineBody ds').2) := by
    intro ds ds' hds
    obtain ⟨⟨ending, hending, hbody⟩, hrest⟩ := lineBody_withReturns hds
    have hspelling : ∀ c ∈ (lineBody ds).1, OneSpelling c := fun c hc =>
      hds.oneSpelling c (List.takeWhile_subset _ hc)
    rw [hbody]
    exact ⟨h.takeLineComment hspelling hending, hrest⟩
  obtain ⟨htext, hlines, hrest⟩ := readLiteral_withReturns hcs
  rw [Scanner.advance, Scanner.advance, h.isNone_statement, hinclusion]
  simp only [hstar, hslash]
  refine related_ite (fun _ => ⟨(h.onward 1).addSpace, hcs⟩) ?_
  refine related_ite (fun _ => ⟨h.addSpace, hcs⟩) ?_
  refine related_ite (fun hcomment => ?_) ?_
  · obtain ⟨hbody, hafter⟩ := blockBody_withReturns (hcs.tail hcomment.2 (by decide))
    exact ⟨h.takeBlockComment hbody, hafter⟩
  refine related_ite (fun hcomment => hline _ _ (hcs.tail hcomment.2 (by decide))) ?_
  refine related_ite (fun _ => related_ite (fun _ => ?_) (hline _ _ hcs)) ?_
  · exact ⟨h.dropPending.markCode, (lineBody_withReturns hcs).2⟩
  refine related_ite (fun _ => ⟨h.takeLiteral htext hlines, hrest⟩) ?_
  refine related_ite (fun _ => h.openBrace hcs) ?_
  refine related_ite (fun _ => ⟨h.closeBrace, hcs⟩) ?_
  refine related_ite (fun _ => ⟨(h.endStatement true).2.markCode, hcs⟩) ?_
  exact ⟨(h.addCode (.char hc .nil)).markCode, hcs⟩

/-- A carriage return before a line feed is one blank more. -/
theorem run_feed (s : Scanner) (cs : List Char) :
    s.run ('\r' :: '\n' :: cs) = ({ s with line := s.line + 1 }.addSpace.addSpace).run cs := by
  have hline : { s.addSpace with line := s.addSpace.line + 1 } = { s with line := s.line + 1 }.addSpace := by
    rw [Scanner.addSpace_line]
    obtain ⟨_, _, _, statement, _, _⟩ := s
    cases statement <;> rfl
  rw [Scanner.run_cons, Scanner.advance_space s (by decide), Scanner.run_cons,
    Scanner.advance_space _ (by decide)]
  exact congrArg (fun after : Scanner => after.addSpace.run cs) hline

theorem run (h : Respelled s s') {cs cs' : List Char} (hcs : WithReturns cs cs') :
    Respelled (s.run cs) (s'.run cs') := by
  fun_induction Scanner.run s cs generalizing s' cs' with
  | case1 s =>
    cases hcs
    rw [Scanner.run]
    exact h
  | case2 s c cs next =>
    rename_i ih
    cases hcs with
    | char hc hcs =>
      obtain ⟨hnext, hrest⟩ := h.advance hc hcs
      rw [Scanner.run_cons]
      exact ih hnext hrest
    | feed hcs =>
      rw [run_feed]
      exact ih (h.onward 1).addSpace_twice hcs

end Respelled

end Scanner

/-- Both spellings of a source have the same declarations, in the same order. -/
theorem declarations_respelled {source source' : String} (h : WithReturns source.toList source'.toList) :
    List.Forall₂ Declaration.Respelled (declarations source) (declarations source') :=
  List.forall₂_reverse_iff.mpr (Scanner.Respelled.front.run h).found

end Source

open Source

namespace FileBuild

open Progress

/-- The second declaration is read as the first. -/
structure ParsedDeclaration.Respelled (d d' : ParsedDeclaration) : Prop where
  raw : d.raw.Respelled d'.raw
  signature : d'.signature = d.signature

theorem parseAll_respelled {raws raws' : List Declaration} (h : List.Forall₂ Declaration.Respelled raws raws')
    (reader : DeclarationReader) :
    List.Forall₂ ParsedDeclaration.Respelled (parseAll reader raws).1 (parseAll reader raws').1 ∧
      (parseAll reader raws').2 = (parseAll reader raws).2 := by
  induction h generalizing reader with
  | nil => exact ⟨.nil, rfl⟩
  | @cons raw raw' raws raws' hraw _ ih =>
    rw [parseAll, parseAll, hraw.text, hraw.line]
    cases hread : reader.read raw.text raw.line with
    | mk read reader' =>
      obtain ⟨hparsed, herrors⟩ := ih reader'
      cases read with
      | error e => exact ⟨hparsed, congrArg (e :: ·) herrors⟩
      | ok s => exact ⟨.cons ⟨hraw, by rw [hraw.endLine]⟩ hparsed, herrors⟩

theorem defines_respelled {ds ds' : List ParsedDeclaration}
    (h : List.Forall₂ ParsedDeclaration.Respelled ds ds') (key : String) : defines ds' key = defines ds key := by
  induction h with
  | nil => rfl
  | cons hd _ ih =>
    rw [defines, defines] at ih ⊢
    rw [List.any_cons, List.any_cons, ih, hd.raw.forward, hd.signature]

/-- A comment that was lent by a forward declaration, in both spellings. -/
def Lent (p p' : String × String) : Prop := p'.1 = p.1 ∧ WithReturns p.2.toList p'.2.toList

/-- Builds in progress that differ in the spelling of lent comments only. -/
structure Progress.Respelled (p p' : Progress) : Prop where
  build : p'.build = p.build
  supply : p'.supply = p.supply
  comments : List.Forall₂ Lent p.forwardComments p'.forwardComments

theorem find?_lent {ps ps' : List (String × String)} (h : List.Forall₂ Lent ps ps') (key : String) :
    Option.Rel Lent (ps.find? (·.1 = key)) (ps'.find? (·.1 = key)) := by
  induction h with
  | nil => exact .none
  | @cons p p' ps ps' hp _ ih =>
    rw [List.find?_cons, List.find?_cons, hp.1]
    cases decide (p.1 = key) with
    | true => exact .some hp
    | false => exact ih

theorem eq_empty_respelled {comment comment' : String} (h : WithReturns comment.toList comment'.toList) :
    comment' = "" ↔ comment = "" := by
  rw [← String.toList_eq_nil_iff, ← String.toList_eq_nil_iff]
  exact h.eq_nil_iff

/-- A comment says the same in both spellings. -/
theorem normalize_respelled {comment comment' : String} (h : WithReturns comment.toList comment'.toList)
    (signature : Option Signature) : Comment.normalize comment' signature = Comment.normalize comment signature :=
  Comment.normalize_congr (by rw [contentLines_withReturns h]) signature

theorem givesWay_respelled {all all' : List ParsedDeclaration}
    (hall : List.Forall₂ ParsedDeclaration.Respelled all all') {d d' : ParsedDeclaration}
    (hd : ParsedDeclaration.Respelled d d') : GivesWay all' d' = GivesWay all d := by
  rw [GivesWay, GivesWay, hd.raw.forward, hd.signature, defines_respelled hall]

namespace Progress.Respelled

variable {p p' : Progress} {d d' : ParsedDeclaration}

theorem commentOf (h : Respelled p p') (hd : ParsedDeclaration.Respelled d d') :
    WithReturns (p.commentOf d).toList (p'.commentOf d').toList := by
  have hlent := find?_lent h.comments d.signature.key
  rw [Progress.commentOf, Progress.commentOf, hd.signature]
  simp only [eq_empty_respelled hd.raw.comment]
  split
  · generalize p.forwardComments.find? _ = lent at hlent
    generalize p'.forwardComments.find? _ = lent' at hlent
    cases hlent with
    | none => exact .nil
    | some hlent => exact hlent.2
  · exact hd.raw.comment

theorem isNone_lent (h : Respelled p p') (key : String) :
    (p'.forwardComments.find? (·.1 = key)).isNone = (p.forwardComments.find? (·.1 = key)).isNone := by
  have hlent := find?_lent h.comments key
  generalize p.forwardComments.find? _ = lent at hlent
  generalize p'.forwardComments.find? _ = lent' at hlent
  cases hlent <;> rfl

theorem add (h : Respelled p p') {all all' : List ParsedDeclaration}
    (hall : List.Forall₂ ParsedDeclaration.Respelled all all') (hd : ParsedDeclaration.Respelled d d') :
    Respelled (p.add all d) (p'.add all' d') := by
  have hgives' := givesWay_respelled hall hd
  cases hgives : GivesWay all d with
  | true =>
    rw [add_of_givesWay hgives, add_of_givesWay (hgives'.trans hgives), hd.signature]
    simp only [h.isNone_lent, ne_eq, eq_empty_respelled hd.raw.comment]
    split
    · exact { h with comments := List.rel_append h.comments (.cons ⟨rfl, hd.raw.comment⟩ .nil) }
    · exact h
  | false =>
    have hdoc := normalize_respelled (h.commentOf hd) (some d.signature)
    have hregister' : p'.build.index.register p'.supply (some { d'.signature with order := p'.build.index.size })
          (Comment.normalize (p'.commentOf d') (some d'.signature)).1 =
        p.build.index.register p.supply (some { d.signature with order := p.build.index.size })
          (Comment.normalize (p.commentOf d) (some d.signature)).1 := by
      rw [hd.signature, hdoc, h.build, h.supply]
    cases hregister : p.build.index.register p.supply (some { d.signature with order := p.build.index.size })
        (Comment.normalize (p.commentOf d) (some d.signature)).1 with
    | error e =>
      rw [add_of_refused hgives hregister, add_of_refused (hgives'.trans hgives) (hregister'.trans hregister),
        h.build]
      exact { h with build := rfl }
    | ok next =>
      obtain ⟨idx, supply⟩ := next
      rw [add_of_registered hgives hregister,
        add_of_registered (hgives'.trans hgives) (hregister'.trans hregister), h.build, hd.signature, hdoc,
        hd.raw.line]
      exact { h with build := rfl, supply := rfl }

theorem foldl (h : Respelled p p') {all all' : List ParsedDeclaration}
    (hall : List.Forall₂ ParsedDeclaration.Respelled all all') {ds ds' : List ParsedDeclaration}
    (hds : List.Forall₂ ParsedDeclaration.Respelled ds ds') :
    Respelled (ds.foldl (Progress.add all) p) (ds'.foldl (Progress.add all') p') := by
  induction hds generalizing p p' with
  | nil => exact h
  | cons hd _ ih => exact ih (h.add hall hd)

end Progress.Respelled

/-- A source is documented alike in both spellings. -/
theorem ofSource_respelled (supply : Anchors) (file : String) {source source' : String}
    (h : WithReturns source.toList source'.toList) :
    ofSource supply file source' = ofSource supply file source := by
  have hraws := declarations_respelled h
  rw [ofSource, ofSource]
  generalize declarations source = raws at hraws
  generalize declarations source' = raws' at hraws
  cases hraws with
  | nil => rfl
  | @cons raw raw' raws raws' hraw hraws =>
    obtain ⟨hparsed, herrors⟩ := parseAll_respelled (.cons hraw hraws) { file := file }
    dsimp only
    rw [herrors]
    generalize (parseAll { file := file } (raw :: raws)).2.map BuildError.malformed = errors
    have hstart : Progress.Respelled { build := { file := file, result := { errors := errors } }, supply := supply }
        { build := { file := file, result := { errors := errors } }, supply := supply } :=
      ⟨rfl, rfl, .nil⟩
    have hdone := hstart.foldl hparsed hparsed
    exact Prod.ext hdone.build hdone.supply

/-- A carriage return before every line feed changes nothing in what a source without carriage returns and
backslashes is documented as: its functions, its errors and its warnings are the same. -/
theorem ofSource_withReturns (supply : Anchors) (file : String) {source : String}
    (hreturn : '\r' ∉ source.toList) (hescape : '\\' ∉ source.toList) :
    ofSource supply file (String.ofList (withReturns source.toList)) = ofSource supply file source := by
  apply ofSource_respelled
  rw [String.toList_ofList]
  exact .withReturns fun c hc => ⟨fun h => hreturn (h ▸ hc), fun h => hescape (h ▸ hc)⟩

/-- Bullets behind a margin, a header and a string literal over two lines, and a line comment. -/
theorem documented_of_returns :
    let source := "/** Adds.\n * @throws\n *   - x is negative\n *   - y is nan\n */\n" ++
      "real f(real x,\n  real y) \x7b\n  print(\"a\nb\"); // \x7d\n\x7d\nreal g(real);\n"
    '\r' ∉ source.toList ∧ '\\' ∉ source.toList ∧
      (ofSource {} "a.stan" (String.ofList (withReturns source.toList))).1.index.entries.map (fun e =>
          (e.signature.key, e.signature.source.line, e.doc.failures)) =
        [("f(real, real)", 6, ["x is negative", "y is nan"]), ("g(real)", 11, [])] := by
  refine ⟨by decide +kernel, by decide +kernel, ?_⟩
  rw [ofSource_withReturns {} "a.stan" (by decide +kernel) (by decide +kernel)]
  decide +kernel

end FileBuild

end OverloadDocs
