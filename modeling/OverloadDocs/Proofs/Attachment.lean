import OverloadDocs.Proofs.Sites

/-!
Which comment a declaration has. A comment waits for the statement that comes next; code, an inclusion, a
closing brace and a comment behind code make the scanner forget it. It survives white space and also a
semicolon that ends no statement. It survives an opening brace too, but inside such a block no declaration is
taken.
-/

namespace OverloadDocs.Source

open Text Token Position

/-- A comment that waits at a position: where its last part was read, and what has come since. An opening
brace among that has led into a block without a header. -/
structure Pending.WaitsSince (m : Pending) (opening p : Position) (content gap : List Char) : Prop where
  idle : opening.Idle
  leads : opening.Leads p
  comment : CommentAt opening.rest content (gap ++ p.rest)
  last : m.reversed.head? = some content
  passed : ∀ c ∈ gap, isSpace c ∨ c = ';' ∨ c = '\x7b'
  block : '\x7b' ∈ gap → p.scanner.blocks.head? = some []

theorem Pending.WaitsSince.step {m : Pending} {opening p q : Position} {content gap : List Char}
    (h : m.WaitsSince opening p content gap) (hturn : p.Leads q) {c : Char} (hrest : p.rest = c :: q.rest)
    (hc : isSpace c ∨ c = ';' ∨ c = '\x7b')
    (hblock : q.scanner.blocks = if c = '\x7b' then [] :: p.scanner.blocks else p.scanner.blocks) :
    m.WaitsSince opening q content (gap ++ [c]) where
  idle := h.idle
  leads := h.leads.trans hturn
  comment := by
    rw [List.append_assoc, List.singleton_append, ← hrest]
    exact h.comment
  last := h.last
  passed := fun d hd => by
    rcases List.mem_append.mp hd with hd | hd
    · exact h.passed d hd
    · rw [List.mem_singleton.mp hd]
      exact hc
  block := fun hbrace => by
    rw [hblock]
    split
    · rfl
    · rename_i hne
      rcases List.mem_append.mp hbrace with hbrace | hbrace
      · exact h.block hbrace
      · exact absurd (List.mem_singleton.mp hbrace).symm hne

/-- What waits at a position of a scan: nothing inside a statement or a function body, and otherwise a comment
of the source. -/
structure Position.Attentive (source : String) (p : Position) : Prop where
  body : ∀ depth s, p.stage = .body depth s → s.statement = none ∧ s.pending = none
  inside : p.scanner.statement ≠ none → p.scanner.pending = none
  waiting : ∀ m, p.scanner.pending = some m →
    ∃ opening content gap, (front source).Leads opening ∧ m.WaitsSince opening p content gap

namespace Position

variable {source : String} {p : Position}

theorem attentive_front (source : String) : (front source).Attentive source :=
  ⟨nofun, fun h => absurd rfl h, nofun⟩

theorem attentive_of_none (hpending : p.scanner.pending = none)
    (hbody : ∀ depth s, p.stage = .body depth s → s.statement = none) : p.Attentive source where
  body := fun depth s hs => by
    rw [scanner, hs] at hpending
    exact ⟨hbody depth s hs, hpending⟩
  inside := fun _ => hpending
  waiting := fun m hm => by
    rw [hpending] at hm
    cases hm

theorem attentive_of_idle {s : Scanner} (hstage : p.stage = .code s) (hs : s.statement = none)
    (hwaiting : ∀ m, s.pending = some m →
      ∃ opening content gap, (front source).Leads opening ∧ m.WaitsSince opening p content gap) :
    p.Attentive source where
  body := fun depth s' hbody => by
    rw [hstage] at hbody
    cases hbody
  inside := fun hne => absurd (by rw [scanner, hstage, Stage.scanner, hs]) hne
  waiting := fun m hm => by
    rw [scanner, hstage] at hm
    exact hwaiting m hm

theorem Attentive.next_between {s : Scanner} (hs : s.statement = none) (hstage : p.stage = .code s)
    (h : p.Attentive source) (hvisit : (front source).Leads p) (hrest : p.rest ≠ []) :
    p.next.Attentive source := by
  have hknown := scanner_of_code hstage
  have hturn : p.Leads p.next := .single ⟨hrest, rfl⟩
  obtain ⟨s', hs', hbetween⟩ := next_of_none hstage hs hrest
  have hnext := scanner_of_code hs'
  have hcode : ∀ depth s, p.next.stage = .body depth s → s.statement = none := fun depth s hbody => by
    rw [hs'] at hbody
    cases hbody
  generalize hcs : p.rest = cs at hbetween
  generalize hleft : p.next.rest = rest at hbetween
  -- a comment that waited goes on waiting past the character that was taken
  have hstep : ∀ c, cs = c :: rest → (isSpace c ∨ c = ';' ∨ c = '\x7b') →
      s'.blocks = (if c = '\x7b' then [] :: s.blocks else s.blocks) →
      ∀ m, s.pending = some m →
        ∃ opening content gap, (front source).Leads opening ∧ m.WaitsSince opening p.next content gap := by
    intro c hc hclass hblock m hm
    obtain ⟨opening, content, gap, hopening, hwaits⟩ := h.waiting m (hknown ▸ hm)
    exact ⟨opening, content, gap ++ [c], hopening,
      hwaits.step hturn (by rw [hcs, hleft, hc]) hclass (by rw [hnext, hknown, hblock])⟩
  cases hbetween with
  | space hc line =>
    rename_i c
    have hbrace : c ≠ '\x7b' := by
      rintro rfl
      cases hc
    exact attentive_of_idle hs' hs (hstep c rfl (.inl hc) (by rw [if_neg hbrace]))
  | drops => exact attentive_of_none (by rw [hnext]) hcode
  | keeps hcomment line earlier =>
    refine attentive_of_idle hs' hs fun m hm => ?_
    obtain rfl := Option.some.inj hm
    exact ⟨p, _, [], hvisit, ⟨s, hstage, hs⟩, hturn, by rwa [hcs, hleft], rfl, nofun, nofun⟩
  | includes => exact attentive_of_none (by rw [hnext]; rfl) hcode
  | opens => exact attentive_of_idle hs' hs (hstep _ rfl (.inr (.inr rfl)) rfl)
  | closes => exact attentive_of_none (by rw [hnext]; rfl) hcode
  | ends => exact attentive_of_idle hs' hs (hstep _ rfl (.inr (.inl rfl)) rfl)
  | begins => exact attentive_of_none (by rw [hnext]) hcode

theorem Attentive.next_within {s : Scanner} {t : Statement} (hs : s.statement = some t)
    (hstage : p.stage = .code s) (h : p.Attentive source) (hrest : p.rest ≠ []) :
    p.next.Attentive source := by
  have hknown := scanner_of_code hstage
  have hpending : s.pending = none := by
    have hnone := h.inside (by rw [hknown, hs]; exact Option.some_ne_none t)
    rwa [hknown] at hnone
  have hwithin := next_of_some hstage hs hrest
  generalize p.rest = cs at hwithin
  generalize p.next.rest = rest at hwithin
  generalize hnext : p.next.stage = stage at hwithin
  have hscanner : p.next.scanner = stage.scanner := by rw [scanner, hnext]
  refine attentive_of_none ?_ ?_
  · rw [hscanner]
    cases hwithin with
    | closes => rfl
    | _ => exact hpending
  · intro depth s' hbody
    rw [hnext] at hbody
    cases hwithin <;> cases hbody
    rfl

theorem Attentive.next (h : p.Attentive source) (hvisit : (front source).Leads p) (hrest : p.rest ≠ []) :
    p.next.Attentive source := by
  cases hstage : p.stage with
  | code s =>
    cases hs : s.statement with
    | none => exact h.next_between hs hstage hvisit hrest
    | some t => exact h.next_within hs hstage hrest
  | body depth s =>
    obtain ⟨hs, hpending⟩ := h.body depth s hstage
    rcases next_of_body hstage with ⟨depth', line, hpass⟩ | hpass
    · refine attentive_of_none (by rw [scanner, hpass]; exact hpending) fun d s' hbody => ?_
      rw [hpass] at hbody
      cases hbody
      exact hs
    · refine attentive_of_none (by rw [scanner, hpass]; rfl) fun d s' hbody => ?_
      rw [hpass] at hbody
      cases hbody

theorem attentive_of_leads (h : (front source).Leads p) : p.Attentive source := by
  induction h with
  | refl => exact attentive_front source
  | tail hleads hturn ih =>
    obtain ⟨hrest, rfl⟩ := hturn
    exact ih.next hleads hrest

end Position

/-- A declaration with a comment has its last part from a comment of the source behind which only white space
and semicolons come before the declaration. -/
theorem comment_attached {source : String} {d : Declaration} (hd : d ∈ declarations source)
    (hcomment : d.comment ≠ "") :
    ∃ text opening first last parts content gap,
      (front source).Leads opening ∧ opening.Idle ∧ opening.Leads first ∧ d.Stands text first last ∧
      CommentAt opening.rest content (gap ++ first.rest) ∧
      d.comment = String.ofList (joinWith ['\n'] (parts ++ [content])) ∧
      ∀ c ∈ gap, isSpace c ∨ c = ';' := by
  obtain ⟨text, first, last, hvisit, hstands⟩ := exists_stands hd
  have hpending := hstands.comment
  rw [Scanner.pendingText] at hpending
  cases hm : first.scanner.pending with
  | none =>
    rw [hm] at hpending
    exact absurd hpending hcomment
  | some m =>
    rw [hm] at hpending
    dsimp only at hpending
    obtain ⟨opening, content, gap, hopening, hwaits⟩ := (attentive_of_leads hvisit).waiting m hm
    obtain ⟨earlier, hparts⟩ := List.head?_eq_some_iff.mp hwaits.last
    refine ⟨text, opening, first, last, earlier.reverse, content, gap, hopening, hwaits.idle, hwaits.leads,
      hstands, hwaits.comment, by rw [hpending, hparts, List.reverse_cons], fun c hc => ?_⟩
    rcases hwaits.passed c hc with hspace | hend | rfl
    · exact .inl hspace
    · exact .inr hend
    · -- a block without a header holds no functions
      have hscope := hstands.scope
      have hblocks := hwaits.block hc
      obtain ⟨blocks, hblocks⟩ := List.head?_eq_some_iff.mp hblocks
      rw [Scanner.inFunctionScope, hblocks] at hscope
      cases hscope

/-- A comment of two lines, with a blank line below it. -/
theorem comment_attached_of_two_lines :
    ⟨"real f(real x)", "One.\nTwo.", 4, 4, true⟩ ∈
        declarations "// One.\n// Two.\n\nreal f(real x);" ∧ "One.\nTwo." ≠ "" ∧
      ∃ (text : List Char) (opening first last : Position) (parts : List (List Char)) (content gap : List Char),
        opening.Leads first ∧ Declaration.Stands ⟨"real f(real x)", "One.\nTwo.", 4, 4, true⟩ text first last ∧
        CommentAt opening.rest content (gap ++ first.rest) ∧
        "One.\nTwo." = String.ofList (joinWith ['\n'] (parts ++ [content])) ∧
        ∀ c ∈ gap, isSpace c ∨ c = ';' := by
  have hd : ⟨"real f(real x)", "One.\nTwo.", 4, 4, true⟩ ∈
      declarations "// One.\n// Two.\n\nreal f(real x);" := by decide +kernel
  have hcomment : "One.\nTwo." ≠ "" := by decide
  obtain ⟨text, opening, first, last, parts, content, gap, -, -, hleads, hstands, hat, hparts, hgap⟩ :=
    comment_attached hd hcomment
  exact ⟨hd, hcomment, text, opening, first, last, parts, content, gap, hleads, hstands, hat, hparts, hgap⟩

/-- A semicolon that ends no statement, between a comment and a declaration. -/
theorem comment_before_semicolon :
    declarations "/** Doubles. */\n;\nreal f(real x);" =
        [⟨"real f(real x)", "Doubles.", 3, 3, true⟩] ∧
      "/** Doubles. */\n;\nreal f(real x);".toList =
        "/** Doubles. */".toList ++ "\n;\n".toList ++ "real f(real x);".toList ∧
      ¬ ∀ c ∈ "\n;\n".toList, isSpace c := by
  refine ⟨by decide +kernel, by decide +kernel, fun h => ?_⟩
  exact absurd (h ';' (by decide +kernel)) (by decide)

end OverloadDocs.Source
