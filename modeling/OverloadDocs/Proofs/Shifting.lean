import OverloadDocs.Source.Scan

/-!
The scan does not depend on where the lines of a source are counted from. Two scanners that know the same, the
second of them some lines further down, take the same characters off a text and find declarations that differ
in their lines only.
-/

namespace OverloadDocs.Source

def Declaration.content (d : Declaration) : String × String × Bool := (d.text, d.comment, d.forward)

def Statement.content (t : Statement) : List Char × String := (t.reversed, t.comment)

/-- A function body ends at the same place wherever its lines are counted from. -/
theorem skipBody_later (depth line n : Nat) (cs : List Char) :
    skipBody depth (line + n) cs = ((skipBody depth line cs).1, (skipBody depth line cs).2 + n) := by
  fun_induction skipBody depth line cs
  all_goals simp_all [skipBody, Nat.add_right_comm]

theorem le_skipBody_line (depth line : Nat) (cs : List Char) : line ≤ (skipBody depth line cs).2 := by
  fun_induction skipBody depth line cs
  all_goals first | exact Nat.le_refl _ | omega

namespace Scanner

/-- The second scanner knows what the first does, so many lines further down. The first line is one, and code
has been seen. -/
structure Later (n : Nat) (s s' : Scanner) : Prop where
  line : s'.line = s.line + n
  found : s'.found.map Declaration.content = s.found.map Declaration.content
  blocks : s'.blocks = s.blocks
  statement : s'.statement.map Statement.content = s.statement.map Statement.content
  pending : s'.pending = s.pending.map fun m => { m with line := m.line + n }
  codeLine : s'.codeLine = s.codeLine + n
  line_pos : 0 < s.line
  codeLine_pos : 0 < s.codeLine

namespace Later

variable {n : Nat} {s s' : Scanner}

theorem statement_cases (h : Later n s s') :
    (s.statement = none ∧ s'.statement = none) ∨
      ∃ t t', s.statement = some t ∧ s'.statement = some t' ∧ t'.content = t.content := by
  have hstatement := h.statement
  cases hs : s.statement <;> cases hs' : s'.statement <;> rw [hs, hs'] at hstatement
  · exact .inl ⟨rfl, rfl⟩
  · cases hstatement
  · cases hstatement
  · exact .inr ⟨_, _, rfl, rfl, Option.some.inj hstatement⟩

theorem isNone_statement (h : Later n s s') : s'.statement.isNone = s.statement.isNone := by
  rcases h.statement_cases with ⟨hs, hs'⟩ | ⟨t, t', hs, hs', -⟩
  · rw [hs, hs']
  · rw [hs, hs']
    rfl

theorem pendingText (h : Later n s s') : s'.pendingText = s.pendingText := by
  rw [Scanner.pendingText, h.pending, Scanner.pendingText]
  cases s.pending <;> rfl

theorem statementText (h : Later n s s') : s'.statementText = s.statementText := by
  rw [Scanner.statementText, Scanner.statementText]
  rcases h.statement_cases with ⟨hs, hs'⟩ | ⟨t, t', hs, hs', hcontent⟩ <;> rw [hs, hs']
  exact congrArg (fun cs => foldBlanks cs.reverse) (Prod.mk.inj hcontent).1

theorem inFunctionScope (h : Later n s s') : s'.inFunctionScope = s.inFunctionScope := by
  rw [Scanner.inFunctionScope, h.blocks, Scanner.inFunctionScope]

theorem markCode (h : Later n s s') : Later n s.markCode s'.markCode :=
  { h with
    codeLine := h.line
    codeLine_pos := h.line_pos }

theorem dropPending (h : Later n s s') : Later n s.dropPending s'.dropPending :=
  { h with pending := rfl }

theorem onward (h : Later n s s') (k : Nat) :
    Later n { s with line := s.line + k } { s' with line := s'.line + k } :=
  { h with
    line := by rw [h.line, Nat.add_right_comm]
    line_pos := Nat.add_pos_left h.line_pos k }

theorem addSpace (h : Later n s s') : Later n s.addSpace s'.addSpace := by
  rw [Scanner.addSpace, Scanner.addSpace]
  rcases h.statement_cases with ⟨hs, hs'⟩ | ⟨t, t', hs, hs', hcontent⟩ <;> rw [hs, hs']
  · exact h
  · obtain ⟨hreversed, hcomment⟩ := Prod.mk.inj hcontent
    exact { h with statement := by simp [Statement.content, hreversed, hcomment] }

theorem addCode (h : Later n s s') (cs : List Char) : Later n (s.addCode cs) (s'.addCode cs) := by
  rw [Scanner.addCode, Scanner.addCode]
  rcases h.statement_cases with ⟨hs, hs'⟩ | ⟨t, t', hs, hs', hcontent⟩ <;> rw [hs, hs']
  · exact { h with
      statement := by simp [Statement.content, h.pendingText]
      pending := rfl }
  · obtain ⟨hreversed, hcomment⟩ := Prod.mk.inj hcontent
    exact { h with statement := by simp [Statement.content, hreversed, hcomment] }

theorem addComment (h : Later n s s') (body : List Char) (lineComment : Bool) (start : Nat) :
    Later n (s.addComment body lineComment start) (s'.addComment body lineComment (start + n)) := by
  have hcode : (s'.codeLine > 0 ∧ start + n = s'.codeLine) ↔ s.codeLine > 0 ∧ start = s.codeLine := by
    have := h.codeLine
    have := h.codeLine_pos
    omega
  have hfresh : Later n { s with pending := some ⟨[body], s.line⟩ }
      { s' with pending := some ⟨[body], s'.line⟩ } :=
    { h with pending := by rw [h.line]; rfl }
  rw [Scanner.addComment, Scanner.addComment]
  simp only [hcode]
  split
  · exact h.dropPending
  · rw [h.pending]
    cases hpending : s.pending with
    | none => exact hfresh
    | some m =>
      have hnear : s'.line - (m.line + n) = s.line - m.line := by
        rw [h.line, Nat.add_sub_add_right]
      simp only [Option.map_some, hnear]
      split
      · exact { h with pending := by rw [h.line]; rfl }
      · exact hfresh

theorem takeBlockComment (h : Later n s s') (body : List Char) :
    Later n (s.takeBlockComment body) (s'.takeBlockComment body) := by
  have hafter := h.onward (newlines body)
  rw [Scanner.takeBlockComment, Scanner.takeBlockComment]
  rcases h.statement_cases with ⟨hs, hs'⟩ | ⟨t, t', hs, hs', -⟩
  · have hadded := hafter.addComment (blockContent body) false s.line
    rw [← h.line] at hadded
    simpa only [hs, hs'] using hadded
  · have hadded := hafter.addSpace
    simpa only [hs, hs'] using hadded

theorem takeLineComment (h : Later n s s') (body : List Char) :
    Later n (s.takeLineComment body) (s'.takeLineComment body) := by
  rw [Scanner.takeLineComment, Scanner.takeLineComment]
  rcases h.statement_cases with ⟨hs, hs'⟩ | ⟨t, t', hs, hs', -⟩ <;> rw [hs, hs']
  · have hadded := h.addComment (lineContent body) true s.line
    rwa [← h.line] at hadded
  · exact h

theorem takeLiteral (h : Later n s s') (l : Literal) : Later n (s.takeLiteral l) (s'.takeLiteral l) :=
  ((h.addCode ('"' :: l.text)).onward l.lines).markCode

theorem closeBrace (h : Later n s s') : Later n s.closeBrace s'.closeBrace :=
  markCode { h with
    blocks := by rw [h.blocks]
    statement := rfl
    pending := rfl }

theorem endStatement (h : Later n s s') (forward : Bool) :
    (s'.endStatement forward).2 = (s.endStatement forward).2 ∧
      Later n (s.endStatement forward).1 (s'.endStatement forward).1 := by
  rw [Scanner.endStatement, Scanner.endStatement, h.statementText, h.inFunctionScope]
  rcases h.statement_cases with ⟨hs, hs'⟩ | ⟨t, t', hs, hs', hcontent⟩ <;> rw [hs, hs']
  · exact ⟨rfl, h⟩
  · dsimp only
    split
    · refine ⟨rfl, { h with found := ?_, statement := rfl }⟩
      simp only [List.map_cons, h.found, Declaration.content, (Prod.mk.inj hcontent).2]
    · exact ⟨rfl, { h with statement := rfl }⟩

theorem openBrace (h : Later n s s') (rest : List Char) :
    (s'.openBrace rest).2 = (s.openBrace rest).2 ∧
      Later n (s.openBrace rest).1 (s'.openBrace rest).1 := by
  obtain ⟨hfound, hended⟩ := h.endStatement false
  rw [Scanner.openBrace, Scanner.openBrace, h.line, skipBody_later, h.statementText, h.blocks]
  generalize s.endStatement false = e at hfound hended
  generalize s'.endStatement false = e' at hfound hended
  obtain ⟨ended, found⟩ := e
  obtain ⟨ended', found'⟩ := e'
  obtain rfl : found' = found := hfound
  cases found' with
  | true =>
    refine ⟨rfl, markCode { hended with line := rfl, pending := rfl, line_pos := ?_ }⟩
    exact Nat.lt_of_lt_of_le h.line_pos (le_skipBody_line 0 s.line rest)
  | false => exact ⟨rfl, markCode { hended with blocks := rfl }⟩

end Later

/-- What is chosen by one condition is related where either choice is. -/
theorem related_ite {α β : Type} {R : α → β → Prop} {p : Prop} [Decidable p] {x y : α} {x' y' : β}
    (h : p → R x x') (h' : R y y') : R (if p then x else y) (if p then x' else y') := by
  split
  · rename_i hp
    exact h hp
  · exact h'

/-- Two scanners, each with the text it leaves: the second knows what the first does, so many lines further
down, and leaves the same. -/
def LaterLeaving (n : Nat) (x x' : Scanner × List Char) : Prop := x'.2 = x.2 ∧ Later n x.1 x'.1

namespace Later

variable {n : Nat} {s s' : Scanner}

theorem advance (h : Later n s s') (c : Char) (cs : List Char) :
    LaterLeaving n (s.advance c cs) (s'.advance c cs) := by
  rw [Scanner.advance, Scanner.advance, h.isNone_statement]
  refine related_ite (fun _ => ⟨rfl, (h.onward 1).addSpace⟩) ?_
  refine related_ite (fun _ => ⟨rfl, h.addSpace⟩) ?_
  refine related_ite (fun _ => ⟨rfl, h.takeBlockComment _⟩) ?_
  refine related_ite (fun _ => ⟨rfl, h.takeLineComment _⟩) ?_
  refine related_ite (fun _ => related_ite (fun _ => ⟨rfl, h.dropPending.markCode⟩) ?_) ?_
  · exact ⟨rfl, h.takeLineComment _⟩
  refine related_ite (fun _ => ⟨rfl, h.takeLiteral _⟩) ?_
  refine related_ite (fun _ => h.openBrace cs) ?_
  refine related_ite (fun _ => ⟨rfl, h.closeBrace⟩) ?_
  refine related_ite (fun _ => ⟨rfl, (h.endStatement true).2.markCode⟩) ?_
  exact ⟨rfl, (h.addCode [c]).markCode⟩

theorem run (h : Later n s s') (cs : List Char) : Later n (s.run cs) (s'.run cs) := by
  fun_induction Scanner.run s cs generalizing s' with
  | case1 s =>
    rw [Scanner.run]
    exact h
  | case2 s c cs next =>
    rename_i ih
    obtain ⟨hrest, hnext⟩ := h.advance c cs
    rw [Scanner.run, hrest]
    exact ih hnext

end Later

end Scanner

end OverloadDocs.Source
