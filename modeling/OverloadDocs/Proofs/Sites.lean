import OverloadDocs.Proofs.Turns

/-!
Where declarations stand in a source. A declaration is read from the position of its first character to that
of the semicolon or brace that ends it; what is read in between is its text, with a space for each blank and
for each block comment. It has the lines of those two positions and the comment that waits at the first.
-/

namespace OverloadDocs.Source

open Text Token

/-- A character that goes into a statement as it stands, given what follows it. -/
def IsCode (c : Char) (cs : List Char) : Prop :=
  ¬ isSpace c ∧ c ∉ ['"', '\x7b', '\x7d', ';'] ∧
    ¬ (c = '/' ∧ (cs.head? = some '*' ∨ cs.head? = some '/'))

/-- A statement is read from a text to the rest of it. Its own text has a space for each blank and for each
block comment, and nothing for a line comment. -/
inductive Reads : List Char → List Char → List Char → Prop
  | done (cs : List Char) : Reads cs [] cs
  | space {c : Char} {cs text rest : List Char} (hc : isSpace c) (h : Reads cs text rest) :
      Reads (c :: cs) (' ' :: text) rest
  | blockComment {cs text rest : List Char} (h : Reads (blockBody cs).2 text rest) :
      Reads ('/' :: '*' :: cs) (' ' :: text) rest
  | lineComment {cs text rest : List Char} (h : Reads (lineBody cs).2 text rest) :
      Reads ('/' :: '/' :: cs) text rest
  | literal {cs text rest : List Char} (h : Reads (Literal.read cs).rest text rest) :
      Reads ('"' :: cs) ('"' :: ((Literal.read cs).text ++ text)) rest
  | code {c : Char} {cs text rest : List Char} (hc : IsCode c cs) (h : Reads cs text rest) :
      Reads (c :: cs) (c :: text) rest

theorem Reads.trans {cs text middle text' rest : List Char} (h : Reads cs text middle)
    (h' : Reads middle text' rest) : Reads cs (text ++ text') rest := by
  induction h with
  | done => exact h'
  | space hc _ ih => exact .space hc (ih h')
  | blockComment _ ih => exact .blockComment (ih h')
  | lineComment _ ih => exact .lineComment (ih h')
  | literal _ ih =>
    rw [List.cons_append, List.append_assoc]
    exact .literal (ih h')
  | code hc _ ih => exact .code hc (ih h')

/-- A comment stands in front of a text: what it says, and the text behind it. -/
inductive CommentAt : List Char → List Char → List Char → Prop
  | block (cs : List Char) :
      CommentAt ('/' :: '*' :: cs) (Scanner.blockContent (blockBody cs).1) (blockBody cs).2
  | line (cs : List Char) :
      CommentAt ('/' :: '/' :: cs) (Scanner.lineContent (lineBody cs).1) (lineBody cs).2
  | hash (cs : List Char) :
      CommentAt ('#' :: cs) (Scanner.lineContent (lineBody cs).1) (lineBody cs).2

/-- The declaration that a statement makes, given the line it ends on. -/
def Statement.declaration (t : Statement) (endLine : Nat) (forward : Bool) : Declaration :=
  ⟨String.ofList (foldBlanks t.reversed.reverse), t.comment, t.line, endLine, forward⟩

namespace Scanner

/-- The statement declares a function where the scanner stands. -/
def Declares (s : Scanner) (t : Statement) : Prop :=
  s.inFunctionScope ∧ looksLikeDeclaration (foldBlanks t.reversed.reverse)

/-- What a turn between statements does. -/
inductive Between (s : Scanner) : List Char → Scanner → List Char → Prop
  | space {c : Char} {cs : List Char} (hc : isSpace c) (line : Nat) :
      Between s (c :: cs) { s with line := line } cs
  | drops {cs content rest : List Char} (h : CommentAt cs content rest) (line : Nat) :
      Between s cs { s with line := line, pending := none } rest
  | keeps {cs content rest : List Char} (h : CommentAt cs content rest) (line : Nat)
      (earlier : List (List Char)) :
      Between s cs { s with line := line, pending := some ⟨content :: earlier, line⟩ } rest
  | includes {cs rest : List Char} : Between s cs s.dropPending.markCode rest
  | opens {cs : List Char} :
      Between s ('\x7b' :: cs) { s with blocks := [] :: s.blocks }.markCode cs
  | closes {cs : List Char} : Between s ('\x7d' :: cs) s.closeBrace cs
  | ends {cs : List Char} : Between s (';' :: cs) s.markCode cs
  | begins {c : Char} {cs text rest : List Char} (hc : ¬ isSpace c) (h : Reads (c :: cs) text rest)
      (hhead : text.head? = some c) (line codeLine : Nat) :
      Between s (c :: cs) { s with
        line := line
        codeLine := codeLine
        statement := some ⟨text.reverse, s.line, s.pendingText⟩
        pending := none } rest

/-- What a turn inside a statement does. -/
inductive Within (s : Scanner) (t : Statement) : List Char → Stage → List Char → Prop
  | grows {cs text rest : List Char} (h : Reads cs text rest) (line codeLine : Nat) :
      Within s t cs (.code { s with
        line := line
        codeLine := codeLine
        statement := some { t with reversed := text.reverse ++ t.reversed } }) rest
  | declares {cs : List Char} (h : s.Declares t) :
      Within s t (';' :: cs) (.code { s with
        statement := none
        found := t.declaration s.line true :: s.found }.markCode) cs
  | opensBody {cs : List Char} (h : s.Declares t) :
      Within s t ('\x7b' :: cs) (.body 0 { s with
        statement := none
        found := t.declaration s.line false :: s.found }) cs
  | opensBlock {cs : List Char} (header : List Char) :
      Within s t ('\x7b' :: cs) (.code { s with
        statement := none
        blocks := header :: s.blocks }.markCode) cs
  | ends {cs : List Char} : Within s t (';' :: cs) (.code { s with statement := none }.markCode) cs
  | closes {cs : List Char} : Within s t ('\x7d' :: cs) (.code s.closeBrace) cs

theorem addComment_cases (s : Scanner) (content : List Char) (lineComment : Bool) (start : Nat) :
    s.addComment content lineComment start = { s with pending := none } ∨
      ∃ earlier, s.addComment content lineComment start =
        { s with pending := some ⟨content :: earlier, s.line⟩ } := by
  rw [addComment]
  split
  · exact .inl rfl
  · dsimp only
    split
    · split
      · exact .inr ⟨_, rfl⟩
      · exact .inr ⟨[], rfl⟩
    · exact .inr ⟨[], rfl⟩

section

variable {s : Scanner}

theorem addSpace_of_none (hs : s.statement = none) : s.addSpace = s := by
  rw [addSpace, hs]

theorem addCode_of_none (hs : s.statement = none) (cs : List Char) : s.addCode cs = { s with
    statement := some ⟨cs.reverse, s.line, s.pendingText⟩
    pending := none } := by
  rw [addCode, hs]

theorem takeBlockComment_of_none (hs : s.statement = none) (body : List Char) :
    s.takeBlockComment body =
      { s with line := s.line + newlines body }.addComment (blockContent body) false s.line := by
  rw [takeBlockComment, hs]

theorem takeLineComment_of_none (hs : s.statement = none) (body : List Char) :
    s.takeLineComment body = s.addComment (lineContent body) true s.line := by
  rw [takeLineComment, hs]

theorem endStatement_of_none (hs : s.statement = none) (forward : Bool) :
    s.endStatement forward = (s, false) := by
  rw [endStatement, hs]

end

theorem Between.comment {s s' : Scanner} {cs content rest : List Char} {lineComment : Bool}
    {start : Nat} (h : CommentAt cs content rest) (line : Nat)
    (hs' : s' = { s with line := line }.addComment content lineComment start) :
    s.Between cs s' rest := by
  rcases addComment_cases { s with line := line } content lineComment start with hdrop | ⟨earlier, hkeep⟩
  · rw [hs', hdrop]
    exact .drops h line
  · rw [hs', hkeep]
    exact .keeps h line earlier

theorem advance_between {s : Scanner} (hs : s.statement = none) {c : Char} (hbrace : c ≠ '\x7b')
    (cs : List Char) : s.Between (c :: cs) (s.advance c cs).1 (s.advance c cs).2 := by
  by_cases hspace : isSpace c
  · rw [advance_space s hspace, addSpace_of_none (s := { s with line := s.line + newlines [c] }) hs]
    exact .space hspace _
  obtain ⟨hfeed, hblank⟩ := notSpaces_of_not_isSpace hspace
  rw [advance, if_neg hfeed, if_neg hblank]
  split
  · rename_i h
    obtain ⟨rfl, hnext⟩ := h
    obtain ⟨rest, rfl⟩ := List.head?_eq_some_iff.mp hnext
    exact .comment (.block rest) _ (takeBlockComment_of_none hs _)
  rename_i hblock
  split
  · rename_i h
    obtain ⟨rfl, hnext⟩ := h
    obtain ⟨rest, rfl⟩ := List.head?_eq_some_iff.mp hnext
    exact .comment (.line rest) s.line (takeLineComment_of_none hs _)
  rename_i hline
  split
  · rename_i h
    obtain ⟨rfl, -⟩ := h
    split
    · exact .includes
    · exact .comment (.hash cs) s.line (takeLineComment_of_none hs _)
  by_cases hquote : c = '"'
  · subst hquote
    have hreads : Reads ('"' :: cs) ('"' :: ((Literal.read cs).text ++ [])) (Literal.read cs).rest :=
      .literal (.done _)
    rw [List.append_nil] at hreads
    rw [if_pos rfl, takeLiteral, addCode_of_none hs]
    exact .begins hspace hreads rfl _ _
  rw [if_neg hquote]
  split
  · rename_i h
    subst h
    exact .closes
  rename_i hclose
  split
  · rename_i h
    subst h
    rw [endStatement_of_none hs]
    exact .ends
  · rename_i hend
    have hcode : IsCode c cs := by
      refine ⟨hspace, by simp [hquote, hbrace, hclose, hend], ?_⟩
      rintro ⟨rfl, h | h⟩
      · exact hblock ⟨rfl, h⟩
      · exact hline ⟨rfl, h⟩
    rw [addCode_of_none hs]
    exact .begins hspace (.code hcode (.done cs)) rfl _ _

section

variable {s : Scanner} {t : Statement}

theorem addSpace_of_some (hs : s.statement = some t) :
    s.addSpace = { s with statement := some { t with reversed := ' ' :: t.reversed } } := by
  rw [addSpace, hs]

theorem addCode_of_some (hs : s.statement = some t) (cs : List Char) : s.addCode cs =
    { s with statement := some { t with reversed := cs.reverse ++ t.reversed } } := by
  rw [addCode, hs]

theorem takeBlockComment_of_some (hs : s.statement = some t) (body : List Char) :
    s.takeBlockComment body = { s with
      line := s.line + newlines body
      statement := some { t with reversed := ' ' :: t.reversed } } := by
  rw [takeBlockComment, hs]
  exact addSpace_of_some rfl

theorem takeLineComment_of_some (hs : s.statement = some t) (body : List Char) :
    s.takeLineComment body = s := by
  rw [takeLineComment, hs]

theorem endStatement_of_declares (hs : s.statement = some t) (h : s.Declares t) (forward : Bool) :
    s.endStatement forward = ({ s with
      statement := none
      found := t.declaration s.line forward :: s.found }, true) := by
  obtain ⟨hscope, hlooks⟩ := h
  simp only [endStatement, statementText, hs, hscope, hlooks, Statement.declaration, Bool.and_self,
    if_true]

theorem endStatement_of_not_declares (hs : s.statement = some t) (h : ¬ s.Declares t)
    (forward : Bool) : s.endStatement forward = ({ s with statement := none }, false) := by
  have hnot : (s.inFunctionScope && looksLikeDeclaration (foldBlanks t.reversed.reverse)) = false := by
    rw [Bool.eq_false_iff, ne_eq, Bool.and_eq_true]
    exact h
  simp only [endStatement, statementText, hs, hnot, Bool.false_eq_true, if_false]

/-- Inside a statement a turn that does not end it adds what it reads. -/
theorem advance_within (hs : s.statement = some t) {c : Char} (hc : c ∉ ['\x7b', '\x7d', ';'])
    (cs : List Char) : s.Within t (c :: cs) (.code (s.advance c cs).1) (s.advance c cs).2 := by
  simp only [List.mem_cons, List.not_mem_nil, or_false, not_or] at hc
  obtain ⟨hopen, hclose, hend⟩ := hc
  by_cases hspace : isSpace c
  · rw [advance_space s hspace, addSpace_of_some (s := { s with line := s.line + newlines [c] }) hs]
    exact .grows (.space hspace (.done cs)) _ _
  obtain ⟨hfeed, hblank⟩ := notSpaces_of_not_isSpace hspace
  rw [advance, if_neg hfeed, if_neg hblank]
  split
  · rename_i h
    obtain ⟨rfl, hnext⟩ := h
    obtain ⟨rest, rfl⟩ := List.head?_eq_some_iff.mp hnext
    rw [takeBlockComment_of_some hs]
    exact .grows (.blockComment (.done _)) _ _
  rename_i hblock
  split
  · rename_i h
    obtain ⟨rfl, hnext⟩ := h
    obtain ⟨rest, rfl⟩ := List.head?_eq_some_iff.mp hnext
    have hsame : { s with statement := some { t with reversed := [].reverse ++ t.reversed } } = s := by
      rw [List.reverse_nil, List.nil_append, ← hs]
    have hgrows := Within.grows (s := s) (t := t)
      (Reads.lineComment (.done (lineBody rest).2)) s.line s.codeLine
    rw [hsame] at hgrows
    rw [takeLineComment_of_some hs]
    exact hgrows
  rename_i hline
  rw [if_neg (by simp [hs])]
  by_cases hquote : c = '"'
  · subst hquote
    have hreads : Reads ('"' :: cs) ('"' :: ((Literal.read cs).text ++ [])) (Literal.read cs).rest :=
      .literal (.done _)
    rw [List.append_nil] at hreads
    rw [if_pos rfl, takeLiteral, addCode_of_some hs]
    exact .grows hreads _ _
  have hcode : IsCode c cs := by
    refine ⟨hspace, by simp [hquote, hopen, hclose, hend], ?_⟩
    rintro ⟨rfl, h | h⟩
    · exact hblock ⟨rfl, h⟩
    · exact hline ⟨rfl, h⟩
  rw [if_neg hquote, addCode_of_some hs]
  exact .grows (.code hcode (.done cs)) _ _

end

end Scanner

namespace Stage

open Scanner

/-- Between statements the scan goes on with one turn. -/
theorem turn_between {s : Scanner} (hs : s.statement = none) {cs : List Char} (hcs : cs ≠ []) :
    ∃ s', ((Stage.code s).turn cs).1 = .code s' ∧ s.Between cs s' ((Stage.code s).turn cs).2 := by
  obtain ⟨c, cs, rfl⟩ := List.exists_cons_of_ne_nil hcs
  by_cases hbrace : c = '\x7b'
  · subst hbrace
    have htext : s.statementText = [] := by rw [statementText, hs]
    rw [turn, endStatement_of_none hs, htext]
    exact ⟨_, rfl, .opens⟩
  · rw [turn_code s hbrace]
    exact ⟨_, rfl, advance_between hs hbrace cs⟩

theorem turn_within {s : Scanner} {t : Statement} (hs : s.statement = some t) {cs : List Char}
    (hcs : cs ≠ []) : s.Within t cs ((Stage.code s).turn cs).1 ((Stage.code s).turn cs).2 := by
  obtain ⟨c, cs, rfl⟩ := List.exists_cons_of_ne_nil hcs
  by_cases hopen : c = '\x7b'
  · subst hopen
    rw [turn]
    by_cases h : s.Declares t
    · rw [endStatement_of_declares hs h]
      exact .opensBody h
    · rw [endStatement_of_not_declares hs h]
      exact .opensBlock _
  rw [turn_code s hopen]
  by_cases hend : c = ';'
  · subst hend
    rw [advance_semicolon]
    by_cases h : s.Declares t
    · rw [endStatement_of_declares hs h]
      exact .declares h
    · rw [endStatement_of_not_declares hs h]
      exact .ends
  by_cases hclose : c = '\x7d'
  · subst hclose
    have hadvance : s.advance '\x7d' cs = (s.closeBrace, cs) := by simp [advance]
    rw [hadvance]
    exact .closes
  · exact advance_within hs (by simp [hopen, hclose, hend]) cs

/-- Inside a function body a turn changes nothing but the line, until the body ends. -/
theorem passBody_cases (depth : Nat) (s : Scanner) (cs : List Char) :
    (∃ depth' line, (passBody depth s cs).1 = .body depth' { s with line := line }) ∨
      (passBody depth s cs).1 = .code { s with pending := none }.markCode := by
  fun_cases passBody depth s cs
  case case7 => exact .inr rfl
  all_goals exact .inl ⟨_, _, rfl⟩

end Stage

namespace Position

variable {p : Position}

theorem scanner_of_code {s : Scanner} (h : p.stage = .code s) : p.scanner = s := by
  rw [scanner, h, Stage.scanner]

theorem next_of_none {s : Scanner} (hstage : p.stage = .code s) (hs : s.statement = none)
    (hrest : p.rest ≠ []) : ∃ s', p.next.stage = .code s' ∧ s.Between p.rest s' p.next.rest := by
  rw [next, hstage]
  exact Stage.turn_between hs hrest

theorem next_of_some {s : Scanner} {t : Statement} (hstage : p.stage = .code s)
    (hs : s.statement = some t) (hrest : p.rest ≠ []) : s.Within t p.rest p.next.stage p.next.rest := by
  rw [next, hstage]
  exact Stage.turn_within hs hrest

theorem next_of_body {depth : Nat} {s : Scanner} (hstage : p.stage = .body depth s) :
    (∃ depth' line, p.next.stage = .body depth' { s with line := line }) ∨
      p.next.stage = .code { s with pending := none }.markCode := by
  rw [next, hstage]
  exact Stage.passBody_cases depth s p.rest

end Position

/-! ## Statements and declarations between two positions -/

/-- At a position the scan is between statements. -/
def Position.Idle (p : Position) : Prop := ∃ s, p.stage = .code s ∧ s.statement = none

open Position

/-- A statement is read from one position of a scan to another. -/
structure Statement.ReadFrom (t : Statement) (first last : Position) : Prop where
  idle : first.Idle
  leads : first.Leads last
  reads : Reads first.rest t.reversed.reverse last.rest
  head : ∃ c cs, first.rest = c :: cs ∧ ¬ isSpace c ∧ t.reversed.reverse.head? = some c
  line : t.line = first.scanner.line
  comment : t.comment = first.scanner.pendingText
  blocks : last.scanner.blocks = first.scanner.blocks

/-- A declaration with the text of a statement stands between two positions: from its first character to the
character that ends it. -/
structure Declaration.Stands (d : Declaration) (text : List Char) (first last : Position) : Prop where
  idle : first.Idle
  scope : first.scanner.inFunctionScope
  leads : first.Leads last
  reads : Reads first.rest text last.rest
  head : ∃ c cs, first.rest = c :: cs ∧ ¬ isSpace c ∧ text.head? = some c
  ends : last.rest.head? = some (if d.forward then ';' else '\x7b')
  text_eq : d.text = String.ofList (foldBlanks text)
  looks : looksLikeDeclaration (foldBlanks text)
  line : d.line = first.scanner.line
  endLine : d.endLine = last.scanner.line
  comment : d.comment = first.scanner.pendingText

/-- What a scan that came to a position has read: the statement began where the scan has been, and so did all
declarations that were found. -/
structure Position.Accounted (source : String) (p : Position) : Prop where
  body : ∀ depth s, p.stage = .body depth s → s.statement = none
  statement : ∀ t, p.scanner.statement = some t →
    ∃ first, (front source).Leads first ∧ t.ReadFrom first p
  found : ∀ d ∈ p.scanner.found,
    ∃ text first last, (front source).Leads first ∧ d.Stands text first last

theorem Statement.ReadFrom.stands {t : Statement} {first last : Position} (h : t.ReadFrom first last)
    (hdeclares : last.scanner.Declares t) {forward : Bool}
    (hend : last.rest.head? = some (if forward then ';' else '\x7b')) :
    (t.declaration last.scanner.line forward).Stands t.reversed.reverse first last := by
  have hscope : first.scanner.inFunctionScope = last.scanner.inFunctionScope := by
    rw [Scanner.inFunctionScope, Scanner.inFunctionScope, h.blocks]
  exact ⟨h.idle, hscope ▸ hdeclares.1, h.leads, h.reads, h.head, hend, rfl, hdeclares.2, h.line, rfl,
    h.comment⟩

namespace Position

variable {source : String} {p : Position}

theorem accounted_front (source : String) : (front source).Accounted source :=
  ⟨nofun, nofun, nofun⟩

/-- Between statements only what was found has to be accounted for. -/
theorem accounted_of_none (hstatement : p.scanner.statement = none)
    (hfound : ∀ d ∈ p.scanner.found,
      ∃ text first last, (front source).Leads first ∧ d.Stands text first last) :
    p.Accounted source where
  body := fun depth s hs => by
    rw [scanner, hs] at hstatement
    exact hstatement
  statement := fun t ht => by
    rw [hstatement] at ht
    cases ht
  found := hfound

theorem Accounted.of_none {q : Position} (h : p.Accounted source)
    (hstatement : q.scanner.statement = none) (hfound : q.scanner.found = p.scanner.found) :
    q.Accounted source :=
  accounted_of_none hstatement (hfound ▸ h.found)

/-- The statement read so far may be found to be a declaration. -/
theorem Accounted.of_declares {q : Position} {t : Statement} (h : p.Accounted source) (forward : Bool)
    (ht : p.scanner.statement = some t) (hdeclares : p.scanner.Declares t)
    (hend : p.rest.head? = some (if forward then ';' else '\x7b'))
    (hstatement : q.scanner.statement = none)
    (hfound : q.scanner.found = t.declaration p.scanner.line forward :: p.scanner.found) :
    q.Accounted source := by
  obtain ⟨first, hvisit, hread⟩ := h.statement t ht
  refine accounted_of_none hstatement ?_
  rw [hfound]
  exact List.forall_mem_cons.mpr ⟨⟨_, first, p, hvisit, hread.stands hdeclares hend⟩, h.found⟩

theorem Accounted.next_between {s : Scanner} (hs : s.statement = none) (hstage : p.stage = .code s)
    (h : p.Accounted source) (hvisit : (front source).Leads p) (hrest : p.rest ≠ []) :
    p.next.Accounted source := by
  have hknown := scanner_of_code hstage
  have hturn : p.Leads p.next := .single ⟨hrest, rfl⟩
  obtain ⟨s', hs', hbetween⟩ := next_of_none hstage hs hrest
  have hnext := scanner_of_code hs'
  generalize hcs : p.rest = cs at hbetween
  generalize hleft : p.next.rest = rest at hbetween
  cases hbetween with
  | begins hc hreads hhead line codeLine =>
    rename_i c cs text
    refine ⟨fun depth s hbody => ?_, fun t ht => ?_, ?_⟩
    · rw [hs'] at hbody
      cases hbody
    · rw [hnext] at ht
      obtain rfl := Option.some.inj ht
      refine ⟨p, hvisit, ?_⟩
      exact {
        idle := ⟨s, hstage, hs⟩
        leads := hturn
        reads := by rwa [List.reverse_reverse, hcs, hleft]
        head := ⟨c, cs, hcs, hc, by rwa [List.reverse_reverse]⟩
        line := by rw [hknown]
        comment := by rw [hknown]
        blocks := by rw [hnext, hknown] }
    · rw [hnext]
      exact hknown ▸ h.found
  | space => exact h.of_none (hnext ▸ hs) (by rw [hnext, hknown])
  | drops => exact h.of_none (hnext ▸ hs) (by rw [hnext, hknown])
  | keeps => exact h.of_none (hnext ▸ hs) (by rw [hnext, hknown])
  | includes => exact h.of_none (hnext ▸ hs) (by rw [hnext, hknown]; rfl)
  | opens => exact h.of_none (hnext ▸ hs) (by rw [hnext, hknown]; rfl)
  | closes => exact h.of_none (hnext ▸ rfl) (by rw [hnext, hknown]; rfl)
  | ends => exact h.of_none (hnext ▸ hs) (by rw [hnext, hknown]; rfl)

theorem Accounted.next_within {s : Scanner} {t : Statement} (hs : s.statement = some t)
    (hstage : p.stage = .code s) (h : p.Accounted source) (hrest : p.rest ≠ []) :
    p.next.Accounted source := by
  have hknown := scanner_of_code hstage
  have hturn : p.Leads p.next := .single ⟨hrest, rfl⟩
  have hwithin := next_of_some hstage hs hrest
  obtain ⟨first, hvisit, hread⟩ := h.statement t (hknown ▸ hs)
  generalize hcs : p.rest = cs at hwithin
  generalize hleft : p.next.rest = rest at hwithin
  generalize hnext : p.next.stage = stage at hwithin
  have hscanner : p.next.scanner = stage.scanner := by rw [scanner, hnext]
  cases hwithin with
  | grows hreads line codeLine =>
    rename_i text
    refine ⟨fun depth s hbody => ?_, fun t' ht => ?_, ?_⟩
    · rw [hnext] at hbody
      cases hbody
    · rw [hscanner] at ht
      obtain rfl := Option.some.inj ht
      obtain ⟨c, cs', hfront, hc, hhead⟩ := hread.head
      have htext : (text.reverse ++ t.reversed).reverse = t.reversed.reverse ++ text := by
        rw [List.reverse_append, List.reverse_reverse]
      refine ⟨first, hvisit, ?_⟩
      exact {
        idle := hread.idle
        leads := hread.leads.trans hturn
        reads := by
          rw [htext]
          exact hread.reads.trans (by rwa [hcs, hleft])
        head := ⟨c, cs', hfront, hc, by rw [htext, List.head?_append, hhead]; rfl⟩
        line := hread.line
        comment := hread.comment
        blocks := by
          rw [hscanner, ← hread.blocks, hknown]
          rfl }
    · rw [hscanner]
      exact hknown ▸ h.found
  | declares hdeclares =>
    exact h.of_declares true (hknown ▸ hs) (hknown ▸ hdeclares) (by rw [hcs]; rfl)
      (by rw [hscanner]; rfl) (by rw [hscanner, hknown]; rfl)
  | opensBody hdeclares =>
    exact h.of_declares false (hknown ▸ hs) (hknown ▸ hdeclares) (by rw [hcs]; rfl)
      (by rw [hscanner]; rfl) (by rw [hscanner, hknown]; rfl)
  | opensBlock header => exact h.of_none (by rw [hscanner]; rfl) (by rw [hscanner, hknown]; rfl)
  | ends => exact h.of_none (by rw [hscanner]; rfl) (by rw [hscanner, hknown]; rfl)
  | closes => exact h.of_none (by rw [hscanner]; rfl) (by rw [hscanner, hknown]; rfl)

theorem Accounted.next (h : p.Accounted source) (hvisit : (front source).Leads p) (hrest : p.rest ≠ []) :
    p.next.Accounted source := by
  cases hstage : p.stage with
  | code s =>
    cases hs : s.statement with
    | none => exact h.next_between hs hstage hvisit hrest
    | some t => exact h.next_within hs hstage hrest
  | body depth s =>
    have hknown : p.scanner = s := by rw [scanner, hstage, Stage.scanner]
    have hs := h.body depth s hstage
    rcases next_of_body hstage with ⟨depth', line, hpass⟩ | hpass
    · have hnext : p.next.scanner = { s with line := line } := by rw [scanner, hpass, Stage.scanner]
      exact h.of_none (by rw [hnext, hs]) (by rw [hnext, hknown])
    · have hnext := scanner_of_code hpass
      exact h.of_none (by rw [hnext, ← hs]; rfl) (by rw [hnext, hknown]; rfl)

/-- Wherever the scan of a source comes to, what it has read is accounted for. -/
theorem accounted_of_leads (h : (front source).Leads p) : p.Accounted source := by
  induction h with
  | refl => exact accounted_front source
  | tail hleads hturn ih =>
    obtain ⟨hrest, rfl⟩ := hturn
    exact ih.next hleads hrest

end Position

/-- Every declaration of a source stands between two positions of the scan. -/
theorem exists_stands {source : String} {d : Declaration} (hd : d ∈ declarations source) :
    ∃ text first last, (front source).Leads first ∧ d.Stands text first last := by
  obtain ⟨p, hleads, hfound⟩ := exists_end source
  rw [hfound, List.mem_reverse] at hd
  exact (accounted_of_leads hleads).found d hd

end OverloadDocs.Source
