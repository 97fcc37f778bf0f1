import Mathlib.Logic.Relation
import OverloadDocs.Proofs.Scanning

/-!
The scan of a source, turn by turn. A position is what the scanner is about to examine, with all it knows
there: a character of a statement or between statements, or one of a function body that it passes over. Each
turn takes a character with whatever belongs to it off the text. A line counter says on which line the
character to be examined stands; the line feeds it leaves out are those behind a backslash in a string
literal.
-/

namespace OverloadDocs.Source

open Text Token

/-- What the scanner is at: it reads statements, or it passes over a function body that is open
`depth + 1` braces deep. -/
inductive Stage where
  | code (s : Scanner)
  | body (depth : Nat) (s : Scanner)

namespace Stage

def scanner : Stage → Scanner
  | .code s => s
  | .body _ s => s

/-- One turn inside a function body. The brace that closes the body ends the stage. -/
def passBody (depth : Nat) (s : Scanner) : List Char → Stage × List Char
  | '\n' :: cs => (.body depth { s with line := s.line + 1 }, cs)
  | '/' :: '*' :: cs =>
    (.body depth { s with line := s.line + newlines (blockBody cs).1 }, (blockBody cs).2)
  | '/' :: '/' :: cs => (.body depth s, (lineBody cs).2)
  | '#' :: cs => (.body depth s, (lineBody cs).2)
  | '"' :: cs =>
    (.body depth { s with line := s.line + (Literal.read cs).lines }, (Literal.read cs).rest)
  | '\x7b' :: cs => (.body (depth + 1) s, cs)
  | '\x7d' :: cs =>
    match depth with
    | 0 => (.code { s with pending := none }.markCode, cs)
    | depth + 1 => (.body depth s, cs)
  | _ :: cs => (.body depth s, cs)
  | [] => (.body depth s, [])

/-- One turn: the character in front, and whatever belongs to it, is taken off the text. -/
def turn : Stage → List Char → Stage × List Char
  | .code s, '\x7b' :: cs =>
    match s.endStatement false with
    | (ended, true) => (.body 0 ended, cs)
    | (ended, false) => (.code { ended with blocks := s.statementText :: s.blocks }.markCode, cs)
  | .code s, c :: cs => (.code (s.advance c cs).1, (s.advance c cs).2)
  | .code s, [] => (.code s, [])
  | .body depth s, cs => passBody depth s cs

/-- What the scan leads to from a stage on. -/
def resume : Stage → List Char → Scanner
  | .code s, cs => s.run cs
  | .body depth s, cs =>
    { s with line := (skipBody depth s.line cs).2, pending := none }.markCode.run
      (skipBody depth s.line cs).1

end Stage

theorem Scanner.endStatement_line (s : Scanner) (forward : Bool) :
    (s.endStatement forward).1.line = s.line := by
  rw [endStatement]
  split
  · rfl
  · split <;> rfl

namespace Stage

theorem resume_passBody (depth : Nat) (s : Scanner) {cs : List Char} (hcs : cs ≠ []) :
    (passBody depth s cs).1.resume (passBody depth s cs).2 = (Stage.body depth s).resume cs := by
  fun_cases passBody depth s cs
  case case10 => exact absurd rfl hcs
  all_goals simp_all [resume, skipBody, Scanner.markCode]

theorem turn_code (s : Scanner) {c : Char} (hc : c ≠ '\x7b') (cs : List Char) :
    (Stage.code s).turn (c :: cs) = (.code (s.advance c cs).1, (s.advance c cs).2) := by
  simp only [turn]

/-- A turn does not change where the scan leads to. -/
theorem resume_turn (st : Stage) {cs : List Char} (hcs : cs ≠ []) :
    (st.turn cs).1.resume (st.turn cs).2 = st.resume cs := by
  cases st with
  | body depth s => exact resume_passBody depth s hcs
  | code s =>
    cases cs with
    | nil => exact absurd rfl hcs
    | cons c cs =>
      by_cases hc : c = '\x7b'
      · subst hc
        have hline := s.endStatement_line false
        rw [resume, Scanner.run_cons, Scanner.advance_openBrace, Scanner.openBrace, turn]
        cases hend : s.endStatement false with
        | mk ended found =>
          rw [hend] at hline
          cases found with
          | true =>
            dsimp only at hline ⊢
            rw [resume, hline]
          | false => rfl
      · rw [turn_code s hc, resume, resume, Scanner.run_cons]

end Stage

/-! ## Line feeds -/

/-- A text ends with another, and so many line feeds stand before that. -/
def Feeds (cs rest : List Char) (count : Nat) : Prop :=
  ∃ read, cs = read ++ rest ∧ newlines read = count

theorem Feeds.refl (cs : List Char) : Feeds cs cs 0 := ⟨[], rfl, rfl⟩

theorem Feeds.suffix {cs rest : List Char} {count : Nat} (h : Feeds cs rest count) : rest <:+ cs := by
  obtain ⟨read, rfl, -⟩ := h
  exact List.suffix_append read rest

theorem Feeds.of_eq {cs rest : List Char} {m n : Nat} (h : Feeds cs rest m) (heq : m = n) :
    Feeds cs rest n := heq ▸ h

theorem Feeds.cons {cs rest : List Char} {count : Nat} (h : Feeds cs rest count) (c : Char) :
    Feeds (c :: cs) rest (newlines [c] + count) := by
  obtain ⟨read, rfl, rfl⟩ := h
  exact ⟨c :: read, rfl, newlines_cons c read⟩

theorem Feeds.trans {cs middle rest : List Char} {m n : Nat} (h : Feeds cs middle m)
    (h' : Feeds middle rest n) : Feeds cs rest (m + n) := by
  obtain ⟨read, rfl, rfl⟩ := h
  obtain ⟨read', rfl, rfl⟩ := h'
  exact ⟨read ++ read', by rw [List.append_assoc], newlines_append read read'⟩

/-- A character that is no line feed stands before the line feeds that follow it. -/
theorem Feeds.cons_of_ne {cs rest : List Char} {count : Nat} (h : Feeds cs rest count) {c : Char}
    (hc : c ≠ '\n') : Feeds (c :: cs) rest count :=
  (h.cons c).of_eq (by simp [newlines, hc])

theorem blockBody_feeds (cs : List Char) :
    Feeds cs (blockBody cs).2 (newlines (blockBody cs).1) := by
  fun_induction blockBody cs with
  | case1 => exact .refl []
  | case2 rest => exact ((Feeds.refl rest).cons '/').cons '*'
  | case3 c cs _ ih =>
    rw [newlines_cons]
    exact ih.cons c

theorem lineBody_feeds (cs : List Char) : Feeds cs (lineBody cs).2 0 := by
  refine ⟨cs.takeWhile (· ≠ '\n'), List.takeWhile_append_dropWhile.symm, ?_⟩
  rw [newlines, List.count_eq_zero]
  intro h
  simpa using List.all_eq_true.mp (List.all_takeWhile (p := fun c => decide (c ≠ '\n')) (l := cs)) _ h

/-- The line feeds behind a backslash in a string literal, given the text after its opening quote. -/
def Literal.escapedFeeds : List Char → Nat
  | [] => 0
  | '\\' :: c :: cs => newlines [c] + escapedFeeds cs
  | '"' :: _ => 0
  | _ :: cs => escapedFeeds cs

theorem Literal.read_feeds (cs : List Char) :
    Feeds cs (Literal.read cs).rest ((Literal.read cs).lines + Literal.escapedFeeds cs) := by
  fun_induction Literal.read cs with
  | case1 => exact .refl []
  | case2 c cs l ih =>
    refine ((ih.cons c).cons_of_ne (by decide)).of_eq ?_
    rw [Literal.escapedFeeds, Nat.add_left_comm]
  | case3 cs => exact (Feeds.refl cs).cons '"'
  | case4 c cs hescape hquote l ih =>
    have hstep : Literal.escapedFeeds (c :: cs) = Literal.escapedFeeds cs := by
      rw [Literal.escapedFeeds]
      · exact hescape
      · exact hquote
    refine (ih.cons c).of_eq ?_
    rw [hstep]
    by_cases hc : c = '\n'
    · simp [hc, newlines, l]
      omega
    · simp [hc, newlines, l]

/-- The line feeds behind a backslash in the string literal that a text begins with, if it does. -/
def escapedAhead : List Char → Nat
  | '"' :: cs => Literal.escapedFeeds cs
  | _ => 0

theorem escapedAhead_of_ne {c : Char} (hc : c ≠ '"') (cs : List Char) :
    escapedAhead (c :: cs) = 0 := by
  unfold escapedAhead
  split
  · rename_i h
    exact absurd (List.cons.inj h).1 hc
  · rfl

namespace Scanner

@[simp]
theorem addSpace_line (s : Scanner) : s.addSpace.line = s.line := by
  rw [addSpace]
  split <;> rfl

@[simp]
theorem addCode_line (s : Scanner) (cs : List Char) : (s.addCode cs).line = s.line := by
  rw [addCode]
  split <;> rfl

@[simp]
theorem addComment_line (s : Scanner) (body : List Char) (lineComment : Bool) (start : Nat) :
    (s.addComment body lineComment start).line = s.line := by
  rw [addComment]
  split
  · rfl
  · dsimp only
    split
    · split <;> rfl
    · rfl

@[simp]
theorem takeBlockComment_line (s : Scanner) (body : List Char) :
    (s.takeBlockComment body).line = s.line + newlines body := by
  rw [takeBlockComment]
  split
  · exact addSpace_line _
  · exact addComment_line ..

@[simp]
theorem takeLineComment_line (s : Scanner) (body : List Char) :
    (s.takeLineComment body).line = s.line := by
  rw [takeLineComment]
  split
  · rfl
  · exact addComment_line ..

@[simp]
theorem markCode_line (s : Scanner) : s.markCode.line = s.line := rfl

/-- The line counter counts the line feeds that are taken, but for those behind a backslash in a string
literal. -/
theorem advance_feeds (s : Scanner) (c : Char) (cs : List Char) (hbrace : c ≠ '\x7b') :
    ∃ count, Feeds (c :: cs) (s.advance c cs).2 (count + escapedAhead (c :: cs)) ∧
      (s.advance c cs).1.line = s.line + count := by
  by_cases hquote : c = '"'
  · subst hquote
    exact ⟨_, (Literal.read_feeds cs).cons_of_ne (by decide), by simp [advance, takeLiteral]⟩
  rw [escapedAhead_of_ne hquote, advance]
  split
  · rename_i h
    exact ⟨_, (Feeds.refl cs).cons c, by simp [h, newlines]⟩
  rename_i hfeed
  split
  · exact ⟨0, (Feeds.refl cs).cons_of_ne hfeed, by simp⟩
  split
  · rename_i h
    obtain ⟨rest, rfl⟩ := List.head?_eq_some_iff.mp h.2
    exact ⟨newlines (blockBody rest).1,
      ((blockBody_feeds rest).cons_of_ne (by decide)).cons_of_ne hfeed, by simp⟩
  split
  · rename_i h
    obtain ⟨rest, rfl⟩ := List.head?_eq_some_iff.mp h.2
    exact ⟨0, ((lineBody_feeds rest).cons_of_ne (by decide)).cons_of_ne hfeed, by simp⟩
  split
  · split
    · exact ⟨0, (lineBody_feeds cs).cons_of_ne hfeed, rfl⟩
    · exact ⟨0, (lineBody_feeds cs).cons_of_ne hfeed, by simp⟩
  split
  · exact ⟨0, (Feeds.refl cs).cons_of_ne hfeed, rfl⟩
  split
  · exact ⟨0, (Feeds.refl cs).cons_of_ne hfeed, by simp [endStatement_line]⟩
  · exact ⟨0, (Feeds.refl cs).cons_of_ne hfeed, by simp⟩

end Scanner

namespace Stage

theorem passBody_feeds (depth : Nat) (s : Scanner) (cs : List Char) :
    ∃ count, Feeds cs (passBody depth s cs).2 (count + escapedAhead cs) ∧
      (passBody depth s cs).1.scanner.line = s.line + count := by
  fun_cases passBody depth s cs with
  | case1 depth cs => exact ⟨_, (Feeds.refl cs).cons '\n', rfl⟩
  | case2 depth cs =>
    exact ⟨_, ((blockBody_feeds cs).cons_of_ne (by decide)).cons_of_ne (by decide), rfl⟩
  | case3 depth cs =>
    exact ⟨0, ((lineBody_feeds cs).cons_of_ne (by decide)).cons_of_ne (by decide), rfl⟩
  | case4 depth cs => exact ⟨0, (lineBody_feeds cs).cons_of_ne (by decide), rfl⟩
  | case5 depth cs => exact ⟨_, (Literal.read_feeds cs).cons_of_ne (by decide), rfl⟩
  | case6 depth cs => exact ⟨0, (Feeds.refl cs).cons_of_ne (by decide), rfl⟩
  | case7 cs => exact ⟨0, (Feeds.refl cs).cons_of_ne (by decide), rfl⟩
  | case8 cs depth => exact ⟨0, (Feeds.refl cs).cons_of_ne (by decide), rfl⟩
  | case9 depth c cs hfeed _ _ _ hquote =>
    rw [escapedAhead_of_ne hquote]
    exact ⟨0, (Feeds.refl cs).cons_of_ne hfeed, rfl⟩
  | case10 => exact ⟨0, .refl [], rfl⟩

theorem turn_feeds (st : Stage) (cs : List Char) :
    ∃ count, Feeds cs (st.turn cs).2 (count + escapedAhead cs) ∧
      (st.turn cs).1.scanner.line = st.scanner.line + count := by
  cases st with
  | body depth s => exact passBody_feeds depth s cs
  | code s =>
    cases cs with
    | nil => exact ⟨0, .refl [], rfl⟩
    | cons c cs =>
      by_cases hc : c = '\x7b'
      · subst hc
        have hline := s.endStatement_line false
        rw [turn, escapedAhead_of_ne (by decide)]
        cases hend : s.endStatement false with
        | mk ended found =>
          rw [hend] at hline
          cases found <;> exact ⟨0, (Feeds.refl cs).cons_of_ne (by decide), hline⟩
      · rw [turn_code s hc]
        exact s.advance_feeds c cs hc

theorem passBody_rest_length (depth : Nat) (s : Scanner) {cs : List Char} (hcs : cs ≠ []) :
    (passBody depth s cs).2.length < cs.length := by
  fun_cases passBody depth s cs with
  | case2 depth cs =>
    have := blockBody_rest_length cs
    simp only [List.length_cons]
    omega
  | case3 depth cs =>
    have := lineBody_rest_length cs
    simp only [List.length_cons]
    omega
  | case4 depth cs => exact Nat.lt_succ_of_le (lineBody_rest_length cs)
  | case5 depth cs => exact Nat.lt_succ_of_le (Literal.read_rest_length cs)
  | case10 => exact absurd rfl hcs
  | _ => exact Nat.lt_succ_self _

theorem turn_rest_length (st : Stage) {cs : List Char} (hcs : cs ≠ []) :
    (st.turn cs).2.length < cs.length := by
  cases st with
  | body depth s => exact passBody_rest_length depth s hcs
  | code s =>
    cases cs with
    | nil => exact absurd rfl hcs
    | cons c cs =>
      by_cases hc : c = '\x7b'
      · subst hc
        rw [turn]
        split <;> exact Nat.lt_succ_self _
      · rw [turn_code s hc]
        exact Nat.lt_succ_of_le (s.advance_rest_length c cs)

end Stage

/-! ## Positions -/

/-- What the scanner is about to examine: what it is at, the text in front of it, and how many line feeds
behind a backslash the string literals had that it has read. -/
structure Position where
  stage : Stage
  rest : List Char
  escaped : Nat

namespace Position

variable {p q : Position}

def scanner (p : Position) : Scanner := p.stage.scanner

/-- The position at the front of a source. -/
def front (source : String) : Position := ⟨.code {}, source.toList, 0⟩

def next (p : Position) : Position :=
  ⟨(p.stage.turn p.rest).1, (p.stage.turn p.rest).2, p.escaped + escapedAhead p.rest⟩

/-- The scan goes on from one position to the other. -/
def Turns (p q : Position) : Prop := p.rest ≠ [] ∧ p.next = q

/-- The scan comes from one position to the other. -/
def Leads : Position → Position → Prop := Relation.ReflTransGen Turns

theorem Leads.trans {r : Position} (h : p.Leads q) (h' : q.Leads r) : p.Leads r :=
  Relation.ReflTransGen.trans h h'

theorem Leads.resume (h : p.Leads q) : q.stage.resume q.rest = p.stage.resume p.rest := by
  induction h with
  | refl => rfl
  | @tail q r _ hturn ih =>
    obtain ⟨hrest, rfl⟩ := hturn
    exact (q.stage.resume_turn hrest).trans ih

/-- Between two positions the line counter counts all line feeds but the escaped ones. -/
theorem Leads.feeds (h : p.Leads q) : ∃ count escapes, Feeds p.rest q.rest (count + escapes) ∧
    q.scanner.line = p.scanner.line + count ∧ q.escaped = p.escaped + escapes := by
  induction h with
  | refl => exact ⟨0, 0, .refl p.rest, rfl, rfl⟩
  | @tail q r _ hturn ih =>
    obtain ⟨-, rfl⟩ := hturn
    obtain ⟨count, escapes, hfeeds, hline, hescaped⟩ := ih
    obtain ⟨count', hfeeds', hline'⟩ := q.stage.turn_feeds q.rest
    refine ⟨count + count', escapes + escapedAhead q.rest,
      (hfeeds.trans hfeeds').of_eq (by omega), ?_, ?_⟩
    · change (q.stage.turn q.rest).1.scanner.line = _
      rw [hline', ← Nat.add_assoc, ← hline]
      rfl
    · change q.escaped + escapedAhead q.rest = _
      rw [hescaped, Nat.add_assoc]

theorem exists_leads_end (p : Position) : ∃ q, p.Leads q ∧ q.rest = [] := by
  by_cases hrest : p.rest = []
  · exact ⟨p, .refl, hrest⟩
  · have hshorter : p.next.rest.length < p.rest.length := p.stage.turn_rest_length hrest
    obtain ⟨q, hleads, hend⟩ := exists_leads_end p.next
    exact ⟨q, .head ⟨hrest, rfl⟩ hleads, hend⟩
termination_by p.rest.length

theorem found_resume_nil (st : Stage) : (st.resume []).found = st.scanner.found := by
  cases st with
  | code s => rw [Stage.resume, Scanner.run]; rfl
  | body depth s => rw [Stage.resume, skipBody, Scanner.run]; rfl

/-- The declarations of a source are those found where its scan ends. -/
theorem exists_end (source : String) :
    ∃ p, (front source).Leads p ∧ declarations source = p.scanner.found.reverse := by
  obtain ⟨p, hleads, hend⟩ := exists_leads_end (front source)
  have hresume := hleads.resume
  rw [hend] at hresume
  refine ⟨p, hleads, ?_⟩
  rw [scanner, ← found_resume_nil, hresume]
  rfl

/-- Where the scan of a source comes to, the line counter says the line, if it counts the line feeds behind
a backslash in string literals too. -/
theorem line_of_leads {source : String} (h : (front source).Leads p) :
    ∃ read, source.toList = read ++ p.rest ∧ p.scanner.line + p.escaped = 1 + newlines read := by
  obtain ⟨count, escapes, ⟨read, hread, hcount⟩, hline, hescaped⟩ := h.feeds
  refine ⟨read, hread, ?_⟩
  change p.scanner.line = 1 + count at hline
  change p.escaped = 0 + escapes at hescaped
  omega

theorem line_pos_of_leads {source : String} (h : (front source).Leads p) : 0 < p.scanner.line := by
  obtain ⟨count, escapes, -, hline, -⟩ := h.feeds
  change p.scanner.line = 1 + count at hline
  omega

end Position

end OverloadDocs.Source
