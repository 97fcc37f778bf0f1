import OverloadDocs.Proofs.BlockComments
import OverloadDocs.Proofs.Shifting
import OverloadDocs.Proofs.Turns

/-!
Function bodies are passed over. Of a well-formed body, in which braces stand in pairs outside comments and
string literals, the scan takes exactly the text up to its closing brace, and all that it keeps is on which
line that stands. So the declarations of a source do not depend on what its function bodies hold.
-/

namespace OverloadDocs.Source

open Text

/-! ## Well-formed bodies -/

/-- What stands between the quotes of a string literal. -/
inductive IsLiteralText : List Char → Prop
  | nil : IsLiteralText []
  | plain {c : Char} {cs : List Char} (hquote : c ≠ '"') (hescape : c ≠ '\\') (h : IsLiteralText cs) :
      IsLiteralText (c :: cs)
  | escape (c : Char) {cs : List Char} (h : IsLiteralText cs) : IsLiteralText ('\\' :: c :: cs)

/-- What stands between the braces of a well-formed body. A slash stands for itself where it opens no
comment. -/
inductive IsBody : List Char → Prop
  | nil : IsBody []
  | plain {c : Char} {cs : List Char} (hc : c ∉ ['"', '#', '/', '\x7b', '\x7d']) (h : IsBody cs) :
      IsBody (c :: cs)
  | slash {cs : List Char} (hblock : cs.head? ≠ some '*') (hline : cs.head? ≠ some '/') (h : IsBody cs) :
      IsBody ('/' :: cs)
  | literal {text cs : List Char} (htext : IsLiteralText text) (h : IsBody cs) :
      IsBody ('"' :: (text ++ '"' :: cs))
  | blockComment {text cs : List Char} (htext : ¬ ['*', '/'] <:+: text) (h : IsBody cs) :
      IsBody ('/' :: '*' :: (text ++ '*' :: '/' :: cs))
  | lineComment {text cs : List Char} (htext : '\n' ∉ text) (h : IsBody cs) :
      IsBody ('/' :: '/' :: (text ++ '\n' :: cs))
  | hashComment {text cs : List Char} (htext : '\n' ∉ text) (h : IsBody cs) :
      IsBody ('#' :: (text ++ '\n' :: cs))
  | braces {inner cs : List Char} (hinner : IsBody inner) (h : IsBody cs) :
      IsBody ('\x7b' :: (inner ++ '\x7d' :: cs))

theorem IsBody.plain_append {front cs : List Char}
    (hfront : front.all (· ∉ ['"', '#', '/', '\x7b', '\x7d'])) (h : IsBody cs) : IsBody (front ++ cs) := by
  induction front with
  | nil => exact h
  | cons c front ih =>
    rw [List.all_cons, Bool.and_eq_true, decide_eq_true_iff] at hfront
    exact .plain hfront.1 (ih hfront.2)

theorem IsLiteralText.rest_read {text : List Char} (h : IsLiteralText text) (rest : List Char) :
    (Literal.read (text ++ '"' :: rest)).rest = rest := by
  induction h with
  | nil => rfl
  | plain hquote hescape h ih =>
    rw [List.cons_append, Literal.read]
    · exact ih
    · exact fun _ _ hc => absurd hc hescape
    · exact hquote
  | escape c h ih =>
    rw [List.cons_append, List.cons_append, Literal.read]
    exact ih

theorem lineBody_line {text : List Char} (h : '\n' ∉ text) (rest : List Char) :
    (lineBody (text ++ '\n' :: rest)).2 = '\n' :: rest := by
  have hpos : ∀ c ∈ text, decide (c ≠ '\n') := fun c hc =>
    decide_eq_true fun heq => h (heq ▸ hc)
  rw [lineBody, List.dropWhile_append_of_pos hpos, List.dropWhile_cons_of_neg (by decide)]

/-- A character that neither opens nor closes anything is passed over by itself. -/
theorem skipBody_cons {c : Char} {cs : List Char} (hc : c ∉ ['\n', '"', '#', '\x7b', '\x7d'])
    (hslash : c = '/' → cs.head? ≠ some '*' ∧ cs.head? ≠ some '/') (depth line : Nat) :
    skipBody depth line (c :: cs) = skipBody depth line cs := by
  simp only [List.mem_cons, List.not_mem_nil, or_false, not_or] at hc
  obtain ⟨hfeed, hquote, hhash, hopen, hclose⟩ := hc
  rw [skipBody]
  · exact hfeed
  · rintro cs' heq rfl
    exact (hslash heq).1 rfl
  · rintro cs' heq rfl
    exact (hslash heq).2 rfl
  · exact hhash
  · exact hquote
  · exact hopen
  · exact hclose

/-- A well-formed body is passed over up to its closing brace. -/
theorem IsBody.skipBody_append {body : List Char} (h : IsBody body) (depth line : Nat)
    (rest : List Char) : ∃ line', skipBody depth line (body ++ '\x7d' :: rest) =
      skipBody depth line' ('\x7d' :: rest) := by
  induction h generalizing depth line rest with
  | nil => exact ⟨line, rfl⟩
  | @plain c cs hc h ih =>
    simp only [List.mem_cons, List.not_mem_nil, or_false, not_or] at hc
    obtain ⟨hquote, hhash, hslash, hopen, hclose⟩ := hc
    by_cases hfeed : c = '\n'
    · subst hfeed
      rw [List.cons_append, skipBody]
      exact ih ..
    · rw [List.cons_append, skipBody_cons (by simp [hfeed, hquote, hhash, hopen, hclose])
        (fun heq => absurd heq hslash)]
      exact ih ..
  | @slash cs hblock hline h ih =>
    have hnext : ∀ d, cs.head? ≠ some d → d ≠ '\x7d' → (cs ++ '\x7d' :: rest).head? ≠ some d := by
      intro d hd hbrace
      cases cs with
      | nil => simpa using Ne.symm hbrace
      | cons e cs => exact hd
    rw [List.cons_append, skipBody_cons (by decide) (fun _ =>
      ⟨hnext '*' hblock (by decide), hnext '/' hline (by decide)⟩)]
    exact ih ..
  | literal htext h ih =>
    rw [List.cons_append, List.append_assoc, List.cons_append, skipBody, htext.rest_read]
    exact ih ..
  | blockComment htext h ih =>
    rw [List.cons_append, List.cons_append, List.append_assoc, List.cons_append, List.cons_append, skipBody,
      blockBody_closed htext]
    exact ih ..
  | lineComment htext h ih =>
    rw [List.cons_append, List.cons_append, List.append_assoc, List.cons_append, skipBody,
      lineBody_line htext, skipBody]
    exact ih ..
  | hashComment htext h ih =>
    rw [List.cons_append, List.append_assoc, List.cons_append, skipBody, lineBody_line htext, skipBody]
    exact ih ..
  | braces hinner h ihinner ih =>
    obtain ⟨line', hskip⟩ := ihinner (depth + 1) line (_ ++ '\x7d' :: rest)
    rw [List.cons_append, List.append_assoc, List.cons_append, skipBody, hskip, skipBody]
    exact ih ..

/-! ## Text before a brace -/

/-- What is read, and what is left, of a text with an opening brace, given what stands behind the brace: where
the brace is left, neither depends on that. -/
def LeavesBrace {α : Type} (out : List Char → α × List Char) : Prop :=
  ∀ r, r.length < (out r).2.length → ∃ rest, ∀ r', out r' = ((out r).1, rest ++ '\x7b' :: r')

theorem LeavesBrace.unread {α : Type} (a : α) (rest : List Char) :
    LeavesBrace fun r => (a, rest ++ '\x7b' :: r) :=
  fun _ _ => ⟨rest, fun _ => rfl⟩

theorem LeavesBrace.passed {α : Type} {out : List Char → α × List Char}
    (h : ∀ r, (out r).2.length ≤ r.length) : LeavesBrace out :=
  fun r hlength => absurd hlength (Nat.not_lt.mpr (h r))

theorem LeavesBrace.map {α β : Type} {out : List Char → α × List Char} (h : LeavesBrace out) (f : α → β) :
    LeavesBrace fun r => (f (out r).1, (out r).2) := by
  intro r hlength
  obtain ⟨rest, hrest⟩ := h r hlength
  exact ⟨rest, fun r' => by simp only [hrest r']⟩

theorem LeavesBrace.ite {α : Type} {p : Prop} [Decidable p] {out out' : List Char → α × List Char}
    (h : p → LeavesBrace out) (h' : ¬ p → LeavesBrace out') :
    LeavesBrace fun r => if p then out r else out' r := by
  by_cases hp : p
  · simpa only [if_pos hp] using h hp
  · simpa only [if_neg hp] using h' hp

/-- What a reader takes off a text without coming past an opening brace does not depend on what stands behind
the brace. -/
def StopsAtBrace {α : Type} (read : List Char → α × List Char) : Prop :=
  ∀ cs, LeavesBrace fun r => read (cs ++ '\x7b' :: r)

theorem blockBody_stopsAtBrace : StopsAtBrace blockBody := by
  intro cs
  fun_induction blockBody cs with
  | case1 =>
    refine .passed fun r => ?_
    rw [List.nil_append, blockBody]
    · exact blockBody_rest_length r
    · rintro rest heq
      cases heq
  | case2 cs => exact .unread _ cs
  | case3 c cs hend ih =>
    have hopen : ∀ r rest, c = '*' → cs ++ '\x7b' :: r = '/' :: rest → False := by
      rintro r rest rfl heq
      cases cs with
      | nil => cases heq
      | cons d cs =>
        obtain ⟨rfl, -⟩ := List.cons.inj heq
        exact hend cs rfl rfl
    have hstep : ∀ r, blockBody (c :: cs ++ '\x7b' :: r) =
        (c :: (blockBody (cs ++ '\x7b' :: r)).1, (blockBody (cs ++ '\x7b' :: r)).2) := by
      intro r
      rw [List.cons_append, blockBody]
      exact hopen r
    simp only [hstep]
    exact ih.map (c :: ·)

theorem lineBody_cons_of_ne {c : Char} (hc : c ≠ '\n') (cs : List Char) :
    lineBody (c :: cs) = (c :: (lineBody cs).1, (lineBody cs).2) := by
  simp [lineBody, hc]

theorem lineBody_stopsAtBrace : StopsAtBrace lineBody := by
  intro cs
  induction cs with
  | nil =>
    refine .passed fun r => ?_
    rw [List.nil_append, lineBody_cons_of_ne (by decide)]
    exact lineBody_rest_length r
  | cons c cs ih =>
    by_cases hc : c = '\n'
    · subst hc
      have hstep : ∀ r, lineBody ('\n' :: cs ++ '\x7b' :: r) = ([], '\n' :: cs ++ '\x7b' :: r) :=
        fun r => by simp [lineBody]
      simp only [hstep]
      exact .unread _ ('\n' :: cs)
    · simp only [List.cons_append, lineBody_cons_of_ne hc]
      exact ih.map (c :: ·)

/-- A string literal as a reader. -/
def readLiteral (cs : List Char) : (List Char × Nat) × List Char :=
  (((Literal.read cs).text, (Literal.read cs).lines), (Literal.read cs).rest)

theorem readLiteral_cons {c : Char} {cs : List Char} (hescape : c = '\\' → cs = [])
    (hquote : c ≠ '"') : readLiteral (c :: cs) =
      ((c :: (readLiteral cs).1.1,
        if c = '\n' then (readLiteral cs).1.2 + 1 else (readLiteral cs).1.2), (readLiteral cs).2) := by
  rw [readLiteral, Literal.read]
  · rfl
  · rintro d ds rfl rfl
    cases hescape rfl
  · exact hquote

theorem readLiteral_escape (c : Char) (cs : List Char) : readLiteral ('\\' :: c :: cs) =
    (('\\' :: c :: (readLiteral cs).1.1, (readLiteral cs).1.2), (readLiteral cs).2) := by
  rw [readLiteral, Literal.read]
  rfl

theorem readLiteral_stopsAtBrace : StopsAtBrace readLiteral := by
  intro cs
  fun_induction Literal.read cs with
  | case1 =>
    refine .passed fun r => ?_
    rw [List.nil_append, readLiteral_cons (fun h => absurd h (by decide)) (by decide)]
    exact Literal.read_rest_length r
  | case2 c cs l ih =>
    simp only [List.cons_append, readLiteral_escape]
    exact ih.map fun l => ('\\' :: c :: l.1, l.2)
  | case3 cs => exact .unread (['"'], 0) cs
  | case4 c cs hescape hquote l ih =>
    by_cases hlone : c = '\\' ∧ cs = []
    · -- a backslash before the brace takes the brace with it
      obtain ⟨rfl, rfl⟩ := hlone
      refine .passed fun r => ?_
      rw [List.cons_append, List.nil_append, readLiteral_escape]
      exact Literal.read_rest_length r
    · have hopen : ∀ r, c = '\\' → cs ++ '\x7b' :: r = [] := by
        intro r hc
        cases cs with
        | nil => exact absurd ⟨hc, rfl⟩ hlone
        | cons d cs => exact (hescape d cs hc rfl).elim
      simp only [List.cons_append, readLiteral_cons (hopen _) hquote]
      exact ih.map fun l => (c :: l.1, if c = '\n' then l.2 + 1 else l.2)

/-! ## Turns before a brace -/

theorem head?_append_brace (cs r : List Char) {d : Char} (hd : d ≠ '\x7b') :
    (cs ++ '\x7b' :: r).head? = some d ↔ cs.head? = some d := by
  cases cs with
  | nil => simpa using hd.symm
  | cons e cs => rfl

theorem isPrefixOf_append_brace {lead : List Char} (hlead : '\x7b' ∉ lead) (cs r : List Char) :
    lead.isPrefixOf (cs ++ '\x7b' :: r) = lead.isPrefixOf cs := by
  induction lead generalizing cs with
  | nil => simp
  | cons d lead ih =>
    simp only [List.mem_cons, not_or] at hlead
    obtain ⟨hd, hlead⟩ := hlead
    cases cs with
    | nil =>
      have hne : (d == '\x7b') = false := beq_false_of_ne (Ne.symm hd)
      rw [List.nil_append, List.isPrefixOf_cons_cons, hne, Bool.false_and, List.isPrefixOf_cons_nil]
    | cons e cs =>
      rw [List.cons_append, List.isPrefixOf_cons_cons, List.isPrefixOf_cons_cons, ih hlead]

namespace Scanner

theorem advance_stopsAtBrace (s : Scanner) {c : Char} (hc : c ≠ '\x7b') : StopsAtBrace (s.advance c) := by
  intro cs
  have hstar := fun r => head?_append_brace cs r (d := '*') (by decide)
  have hslash := fun r => head?_append_brace cs r (d := '/') (by decide)
  have hopen : '\x7b' ∉ inclusion := by decide
  have hinclusion := fun r => isPrefixOf_append_brace hopen (c :: cs) r
  simp only [List.cons_append] at hinclusion
  simp only [advance, hstar, hslash, hinclusion, if_neg hc]
  refine .ite (fun _ => .unread _ cs) fun _ => ?_
  refine .ite (fun _ => .unread _ cs) fun _ => ?_
  refine .ite (fun hblock => ?_) fun _ => ?_
  · obtain ⟨rest, rfl⟩ := List.head?_eq_some_iff.mp hblock.2
    exact (blockBody_stopsAtBrace rest).map s.takeBlockComment
  refine .ite (fun hline => ?_) fun _ => ?_
  · obtain ⟨rest, rfl⟩ := List.head?_eq_some_iff.mp hline.2
    exact (lineBody_stopsAtBrace rest).map s.takeLineComment
  have hbody := lineBody_stopsAtBrace cs
  refine .ite (fun _ => .ite (fun _ => hbody.map fun _ => s.dropPending.markCode) fun _ =>
    hbody.map s.takeLineComment) fun _ => ?_
  refine .ite (fun _ => (readLiteral_stopsAtBrace cs).map fun l => s.takeLiteral ⟨l.1, l.2, []⟩) fun _ => ?_
  refine .ite (fun _ => .unread _ cs) fun _ => ?_
  exact .ite (fun _ => .unread _ cs) fun _ => .unread _ cs

end Scanner

namespace Stage

theorem passBody_stopsAtBrace (depth : Nat) (s : Scanner) : StopsAtBrace (passBody depth s) := by
  intro cs
  fun_cases passBody depth s cs with
  | case1 depth cs => exact .unread _ cs
  | case2 depth cs =>
    exact (blockBody_stopsAtBrace cs).map fun body => Stage.body depth { s with line := s.line + newlines body }
  | case3 depth cs => exact (lineBody_stopsAtBrace cs).map fun _ => Stage.body depth s
  | case4 depth cs => exact (lineBody_stopsAtBrace cs).map fun _ => Stage.body depth s
  | case5 depth cs =>
    exact (readLiteral_stopsAtBrace cs).map fun l => Stage.body depth { s with line := s.line + l.2 }
  | case6 depth cs => exact .unread _ cs
  | case7 cs => exact .unread _ cs
  | case8 cs depth => exact .unread _ cs
  | case9 depth c cs hfeed hblock hline hhash hquote hopen hclose =>
    have hpass : ∀ x, passBody depth s (c :: (cs ++ '\x7b' :: x)) = (.body depth s, cs ++ '\x7b' :: x) := by
      intro x
      have hnext : ∀ d ds, (∀ ds, c = '/' → cs = d :: ds → False) → d ≠ '\x7b' → c = '/' →
          cs ++ '\x7b' :: x = d :: ds → False := by
        intro d ds hd hbrace hc heq
        cases cs with
        | nil => exact hbrace (List.cons.inj heq).1.symm
        | cons e cs =>
          obtain ⟨rfl, -⟩ := List.cons.inj heq
          exact hd cs hc rfl
      rw [passBody]
      · exact hfeed
      · exact fun ds => hnext '*' ds hblock (by decide)
      · exact fun ds => hnext '/' ds hline (by decide)
      · exact hhash
      · exact hquote
      · exact hopen
      · exact hclose
    simp only [List.cons_append, hpass]
    exact .unread _ cs
  | case10 depth => exact .passed fun _ => Nat.le_refl _

theorem turn_stopsAtBrace (st : Stage) : StopsAtBrace st.turn := by
  cases st with
  | body depth s => exact passBody_stopsAtBrace depth s
  | code s =>
    intro cs
    cases cs with
    | nil =>
      exact .passed fun r => Nat.le_of_lt_succ ((Stage.code s).turn_rest_length (List.cons_ne_nil '\x7b' r))
    | cons c cs =>
      by_cases hc : c = '\x7b'
      · subst hc
        intro r _
        refine ⟨cs, fun r' => ?_⟩
        simp only [List.cons_append, turn]
        split <;> rfl
      · simp only [List.cons_append, turn_code s hc]
        exact (s.advance_stopsAtBrace hc cs).map Stage.code

end Stage

/-- Where the scan comes to an opening brace, it does so whatever stands behind the brace. -/
theorem Position.Leads.behind_brace {p q : Position} (h : p.Leads q) {r : List Char}
    (hq : q.rest = '\x7b' :: r) (r' : List Char) {cs : List Char} (hp : p.rest = cs ++ '\x7b' :: r)
    (escaped : Nat) :
    ∃ escaped', Leads ⟨p.stage, cs ++ '\x7b' :: r', escaped⟩ ⟨q.stage, '\x7b' :: r', escaped'⟩ := by
  induction h using Relation.ReflTransGen.head_induction_on generalizing cs escaped with
  | refl =>
    have hcs : cs = [] := by
      rw [hq, eq_comm] at hp
      simpa using hp
    rw [hcs]
    exact ⟨escaped, .refl⟩
  | @head p p' hturn hleads ih =>
    obtain ⟨-, rfl⟩ := hturn
    obtain ⟨count, escapes, hfeeds, -⟩ := Leads.feeds hleads
    have hlength : r.length < (p.stage.turn (cs ++ '\x7b' :: r)).2.length := by
      have hle := hfeeds.suffix.length_le
      rw [hq, List.length_cons] at hle
      rw [← hp]
      exact hle
    obtain ⟨rest, hrest⟩ := p.stage.turn_stopsAtBrace cs r hlength
    dsimp only at hrest
    have hnext : p.next.rest = rest ++ '\x7b' :: r := by
      rw [next, hp, hrest r]
    obtain ⟨escaped', hleads'⟩ := ih hnext (escaped + escapedAhead (cs ++ '\x7b' :: r'))
    refine ⟨escaped', .head ⟨by simp, ?_⟩ hleads'⟩
    rw [next, hrest r']
    simp only [next, hp]

/-! ## Bodies and declarations -/

/-- The stage lies directly inside the braces of a function body. -/
def Stage.isOutermost : Stage → Bool
  | .body 0 _ => true
  | _ => false

/-- A brace after this text opens a function body, so that the scan passes over what follows. -/
def OpensBody (before : String) : Prop :=
  ∃ rest p, (Position.front (before ++ "\x7b" ++ rest)).Leads p ∧ p.rest = '\x7b' :: rest.toList ∧
    p.next.stage.isOutermost

theorem Stage.turn_brace {st : Stage} {r : List Char} (h : (st.turn ('\x7b' :: r)).1.isOutermost) :
    ∃ ended, ∀ r', st.turn ('\x7b' :: r') = (.body 0 ended, r') := by
  cases st with
  | body depth s => cases h
  | code s =>
    rw [turn] at h
    cases hend : s.endStatement false with
    | mk ended found =>
      rw [hend] at h
      cases found with
      | true => exact ⟨ended, fun r' => by rw [turn, hend]⟩
      | false => cases h

/-- What the scan knows after a brace that opens a function body, whatever the body is. -/
theorem OpensBody.exists_ended {before : String} (h : OpensBody before) :
    ∃ ended, 0 < ended.line ∧ ∀ rest, Scanner.run {} (before ++ "\x7b" ++ rest).toList =
      (Stage.body 0 ended).resume rest.toList := by
  obtain ⟨rest, p, hleads, hrest, houtermost⟩ := h
  have hfront : ∀ rest, (Position.front (before ++ "\x7b" ++ rest)).rest =
      before.toList ++ '\x7b' :: rest.toList := by
    intro rest
    simp [Position.front]
  rw [Position.next, hrest] at houtermost
  obtain ⟨ended, hturn⟩ := p.stage.turn_brace houtermost
  refine ⟨ended, ?_, fun rest' => ?_⟩
  · have hnext : p.Leads p.next := .single ⟨by simp [hrest], rfl⟩
    have hline := Position.line_pos_of_leads (hleads.trans hnext)
    rw [Position.scanner, Position.next, hrest, hturn] at hline
    exact hline
  · obtain ⟨escaped, hleads'⟩ := hleads.behind_brace hrest rest'.toList (hfront rest) 0
    have hresume := hleads'.resume
    have hstep := p.stage.resume_turn (List.cons_ne_nil '\x7b' rest'.toList)
    rw [hturn] at hstep
    rw [hstep, hresume, ← hfront rest']
    rfl

/-- Behind a function body the scan goes on as if the body were empty, but for the line. -/
theorem OpensBody.exists_declarations {before : String} (h : OpensBody before) :
    ∃ ended : Scanner, 0 < ended.line ∧ ∀ body after : String, IsBody body.toList → ∃ line, 0 < line ∧
      declarations (before ++ "\x7b" ++ (body ++ "\x7d" ++ after)) =
        ({ ended with line := line, pending := none }.markCode.run after.toList).found.reverse := by
  obtain ⟨ended, hpos, hresume⟩ := h.exists_ended
  refine ⟨ended, hpos, fun body after hbody => ?_⟩
  have hsource : (body ++ "\x7d" ++ after).toList = body.toList ++ '\x7d' :: after.toList := by simp
  obtain ⟨line, hskip⟩ := hbody.skipBody_append 0 ended.line after.toList
  rw [skipBody] at hskip
  refine ⟨line, ?_, ?_⟩
  · have hle := le_skipBody_line 0 ended.line (body.toList ++ '\x7d' :: after.toList)
    rw [hskip] at hle
    exact Nat.lt_of_lt_of_le hpos hle
  · rw [declarations, hresume, Stage.resume, hsource, hskip]

/-- Where no comment waits, the line does not count for what the scan finds but for its lines. -/
theorem Scanner.content_run (ended : Scanner) {line line' : Nat} (hline : 0 < line) (hle : line ≤ line')
    (cs : List Char) :
    ({ ended with line := line, pending := none }.markCode.run cs).found.map Declaration.content =
      ({ ended with line := line', pending := none }.markCode.run cs).found.map Declaration.content := by
  have hlater : Later (line' - line) { ended with line := line, pending := none }.markCode
      { ended with line := line', pending := none }.markCode :=
    { line := (Nat.add_sub_of_le hle).symm
      found := rfl
      blocks := rfl
      statement := rfl
      pending := rfl
      codeLine := (Nat.add_sub_of_le hle).symm
      line_pos := hline
      codeLine_pos := hline }
  exact (hlater.run cs).found.symm

/-- What a function body holds does not count for the declarations of a source, but for their lines: a
well-formed body ends at its own closing brace, and nothing that stands in it is taken for a declaration or
for a comment. -/
theorem declarations_of_bodies {before body body' : String} (hopens : OpensBody before)
    (hbody : IsBody body.toList) (hbody' : IsBody body'.toList) (after : String) :
    (declarations (before ++ "\x7b" ++ (body ++ "\x7d" ++ after))).map Declaration.content =
        (declarations (before ++ "\x7b" ++ (body' ++ "\x7d" ++ after))).map Declaration.content ∧
      ∀ line, (skipBody 0 line (body.toList ++ '\x7d' :: after.toList)).1 = after.toList := by
  obtain ⟨ended, -, hdeclarations⟩ := hopens.exists_declarations
  obtain ⟨line, hline, hfound⟩ := hdeclarations body after hbody
  obtain ⟨line', hline', hfound'⟩ := hdeclarations body' after hbody'
  constructor
  · rw [hfound, hfound', List.map_reverse, List.map_reverse]
    rcases Nat.le_total line line' with hle | hle
    · rw [Scanner.content_run ended hline hle]
    · rw [Scanner.content_run ended hline' hle]
  · intro line
    obtain ⟨last, hskip⟩ := hbody.skipBody_append 0 line after.toList
    rw [hskip, skipBody]

theorem Position.leads_iterate (p : Position) (n : Nat) (h : ∀ k < n, (next^[k] p).rest ≠ []) :
    p.Leads (next^[n] p) := by
  induction n with
  | zero => exact .refl
  | succ n ih =>
    rw [Function.iterate_succ_apply']
    exact .tail (ih fun k hk => h k (Nat.lt_succ_of_lt hk)) ⟨h n (Nat.lt_succ_self n), rfl⟩

/-- A body with braces and quotes in comments and in a string literal, and an empty one. -/
theorem declarations_of_nested_body :
    OpensBody "int n() " ∧ IsBody "if (1) \x7b print(\"\\\"\x7d\"); \x7d // \x7d\n".toList ∧
      IsBody "".toList ∧
      (declarations ("int n() " ++ "\x7b" ++
        ("if (1) \x7b print(\"\\\"\x7d\"); \x7d // \x7d\n" ++ "\x7d" ++ " // n\nreal f(real x);"))).map
          Declaration.content = [("int n()", "", false), ("real f(real x)", "", true)] := by
  have hopens : OpensBody "int n() " := by
    refine ⟨"", Position.next^[8] (Position.front ("int n() " ++ "\x7b" ++ "")), ?_, ?_, ?_⟩
    · exact Position.leads_iterate _ 8 (by decide +kernel)
    · decide +kernel
    · decide +kernel
  have hbody : IsBody "if (1) \x7b print(\"\\\"\x7d\"); \x7d // \x7d\n".toList := by
    have hparts : "if (1) \x7b print(\"\\\"\x7d\"); \x7d // \x7d\n".toList = "if (1) ".toList ++
        '\x7b' :: ((" print(".toList ++ '"' :: (['\\', '"', '\x7d'] ++ '"' :: ("); ".toList ++ []))) ++
          '\x7d' :: ([' '] ++ '/' :: '/' :: ([' ', '\x7d'] ++ '\n' :: []))) := by
      decide +kernel
    have htext : IsLiteralText ['\\', '"', '\x7d'] := .escape '"' (.plain (by decide) (by decide) .nil)
    have hcomment : IsBody ([' '] ++ '/' :: '/' :: ([' ', '\x7d'] ++ '\n' :: [])) :=
      .plain_append (by decide) (.lineComment (by decide) .nil)
    rw [hparts]
    exact .plain_append (by decide +kernel) (.braces
      (.plain_append (by decide +kernel) (.literal htext (.plain_append (by decide +kernel) .nil)))
      hcomment)
  have hempty : IsBody "".toList := .nil
  refine ⟨hopens, hbody, hempty, ?_⟩
  rw [(declarations_of_bodies hopens hbody hempty " // n\nreal f(real x);").1]
  decide +kernel

end OverloadDocs.Source
