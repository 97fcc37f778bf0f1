import Mathlib.Data.List.TakeWhile
import OverloadDocs.Proofs.PatternMeaning
import OverloadDocs.Search.Basic

/-!
The patterns that a reference search and the store read alike: ordinary characters, stars, question marks, and
brackets that list characters or hold one range. Braces, backslashes and negated brackets are read differently,
so with them the same filter can keep a function in one search and drop it in the other.
-/

namespace OverloadDocs.Glob

/-- A character that stands for itself in both kinds of patterns. -/
def IsPlain (c : Char) : Prop := c ∉ ['*', '?', '[', '\x7b', '\\', '\x00', '\ufffd']

/-- A character that brackets list, in both kinds of patterns, behind their first character. -/
def IsMember (c : Char) : Prop := c ∉ [']', '-', '\\', '\x00', '\ufffd']

/-- A character with which brackets can begin in both kinds of patterns. -/
def IsFirst (c : Char) : Prop := c ∉ [']', '!', '^', '\\', '\x00', '\ufffd']

instance (c : Char) : Decidable (IsPlain c) := inferInstanceAs (Decidable (c ∉ _))

instance (c : Char) : Decidable (IsMember c) := inferInstanceAs (Decidable (c ∉ _))

instance (c : Char) : Decidable (IsFirst c) := inferInstanceAs (Decidable (c ∉ _))

/-- The text of a pattern that is read alike as a path pattern and as a pattern of the store. -/
inductive Shared : List Char → Prop
  | nil : Shared []
  | plain {c : Char} {cs : List Char} (hc : IsPlain c) (h : Shared cs) : Shared (c :: cs)
  | star {cs : List Char} (h : Shared cs) : Shared ('*' :: cs)
  | one {cs : List Char} (h : Shared cs) : Shared ('?' :: cs)
  | list {c : Char} {more cs : List Char} (hc : IsFirst c) (hmore : ∀ d ∈ more, IsMember d) (h : Shared cs) :
      Shared ('[' :: c :: (more ++ ']' :: cs))
  | range {lo hi : Char} {cs : List Char} (hlo : IsFirst lo) (hhi : hi ∉ [']', '\x00', '\ufffd'])
      (hle : lo ≤ hi) (h : Shared cs) : Shared ('[' :: lo :: '-' :: hi :: ']' :: cs)
  | unclosed {cs : List Char} (hend : ']' ∉ cs) (hnull : '\x00' ∉ cs) : Shared ('[' :: cs)

theorem Shared.null_notMem {cs : List Char} (h : Shared cs) : '\x00' ∉ cs := by
  induction h with
  | nil => exact List.not_mem_nil
  | @plain c cs hc _ ih =>
    simp only [IsPlain, List.mem_cons, not_or] at hc
    simp [ih, Ne.symm hc.2.2.2.2.2.1]
  | star _ ih => simp [ih]
  | one _ ih => simp [ih]
  | @list c more cs hc hmore _ ih =>
    simp only [IsFirst, List.mem_cons, not_or] at hc
    have hmore' : '\x00' ∉ more := fun hmem => hmore _ hmem (by decide)
    simp [ih, hmore', Ne.symm hc.2.2.2.2.1]
  | @range lo hi cs hlo hhi _ _ ih =>
    simp only [IsFirst, List.mem_cons, not_or] at hlo hhi
    simp [ih, Ne.symm hlo.2.2.2.2.1, Ne.symm hhi.2.1]
  | unclosed _ hnull => simpa using hnull

/-! ## As patterns of the store -/

theorem ofStored_shared {text : String} (h : Shared text.toList) :
    Pattern.ofStored text = ofStoredChars text.toList := by
  have hall : ∀ c ∈ text.toList, decide (c ≠ '\x00') = true := fun c hc =>
    decide_eq_true fun heq => h.null_notMem (heq ▸ hc)
  rw [Pattern.ofStored, List.takeWhile_eq_self_iff.mpr hall]

theorem readMembers_members {more : List Char} (h : ∀ d ∈ more, IsMember d) (before : Option Char)
    (cs : List Char) : readMembers before (more ++ ']' :: cs) = (more.map fun c => (c, c), some cs) := by
  induction more generalizing before with
  | nil => rw [List.nil_append, readMembers]; rfl
  | cons c more ih =>
    obtain ⟨hc, hmore⟩ := List.forall_mem_cons.mp h
    simp only [IsMember, List.mem_cons, not_or] at hc
    rw [List.cons_append, readMembers, ih hmore, List.map_cons]
    · exact hc.1
    · exact fun _ _ heq => absurd heq hc.2.1

theorem ofStoredChars_set {cs rest : List Char} (h : (readSet cs).2 = some rest) :
    ofStoredChars ('[' :: cs) = (readSet cs).1 :: ofStoredChars rest := by
  rw [ofStoredChars]
  split
  · rename_i hsome
    rw [h] at hsome
    rw [Option.some.inj hsome]
  · rename_i hnone
    rw [h] at hnone
    cases hnone

theorem readSet_first {c : Char} (hc : IsFirst c) (cs : List Char) :
    readSet (c :: cs) = (.oneIn false (readMembers none (c :: cs)).1, (readMembers none (c :: cs)).2) := by
  simp only [IsFirst, List.mem_cons, not_or] at hc
  have hnegated : isNegated (c :: cs) = false := by simpa [isNegated] using hc.2.2.1
  simp [readSet, hnegated, afterNegation, afterBracket, hc.1]

theorem ofStoredChars_list {c : Char} {more : List Char} (hc : IsFirst c) (hmore : ∀ d ∈ more, IsMember d)
    (cs : List Char) : ofStoredChars ('[' :: c :: (more ++ ']' :: cs)) =
      .oneIn false ((c :: more).map fun d => (d, d)) :: ofStoredChars cs := by
  have hmembers : readMembers none (c :: (more ++ ']' :: cs)) =
      ((c :: more).map fun d => (d, d), some cs) := by
    by_cases hdash : c = '-'
    · -- a dash in front is no range, whatever follows it
      obtain ⟨d, ds, hds⟩ := List.exists_cons_of_ne_nil (List.append_ne_nil_of_right_ne_nil more (List.cons_ne_nil ']' cs))
      have hrest := readMembers_members hmore (some '-') cs
      rw [hds] at hrest
      rw [hds, hdash, readMembers, hrest, List.map_cons]
    · rw [readMembers, readMembers_members hmore, List.map_cons]
      · simp only [IsFirst, List.mem_cons, not_or] at hc
        exact hc.1
      · exact fun _ _ heq => absurd heq hdash
  have hset := readSet_first hc (more ++ ']' :: cs)
  rw [hmembers] at hset
  rw [ofStoredChars_set (by rw [hset]), hset]

theorem ofStoredChars_range {lo hi : Char} (hlo : IsFirst lo) (hhi : hi ≠ ']') (cs : List Char) :
    ofStoredChars ('[' :: lo :: '-' :: hi :: ']' :: cs) =
      .oneIn false [(lo, lo), (lo, hi)] :: ofStoredChars cs := by
  have hclose : readMembers (some lo) ('-' :: hi :: ']' :: cs) = ([(lo, hi)], some cs) := by
    rw [readMembers, if_neg hhi, readMembers]
  have hmembers : readMembers none (lo :: '-' :: hi :: ']' :: cs) = ([(lo, lo), (lo, hi)], some cs) := by
    by_cases hdash : lo = '-'
    · subst hdash
      rw [readMembers, hclose]
    · rw [readMembers, hclose]
      · simp only [IsFirst, List.mem_cons, not_or] at hlo
        exact hlo.1
      · exact fun _ _ heq => absurd heq hdash
  have hset := readSet_first hlo ('-' :: hi :: ']' :: cs)
  rw [hmembers] at hset
  rw [ofStoredChars_set (by rw [hset]), hset]

theorem readMembers_unclosed {before : Option Char} {cs : List Char} (h : ']' ∉ cs) :
    (readMembers before cs).2 = none := by
  fun_induction readMembers before cs with
  | case1 => rfl
  | case2 => simp at h
  | case3 => simp_all
  | case4 _ _ _ _ ih => exact ih (by simp_all)
  | case5 _ _ ih => exact ih (by simp_all)
  | case6 _ _ _ _ _ ih => exact ih (by simp_all)

theorem ofStoredChars_unclosed {cs : List Char} (h : ']' ∉ cs) : ofStoredChars ('[' :: cs) = [.nothing] := by
  have hnegation : ']' ∉ afterNegation cs := by
    rw [afterNegation]
    split
    · exact fun hmem => h (List.mem_of_mem_tail hmem)
    · exact h
  have hbracket : ']' ∉ afterBracket (afterNegation cs) := by
    rw [afterBracket]
    split
    · exact fun hmem => hnegation (List.mem_of_mem_tail hmem)
    · exact hnegation
  have hset : (readSet cs).2 = none := readMembers_unclosed hbracket
  rw [ofStoredChars]
  split
  · rename_i hsome
    rw [hset] at hsome
    cases hsome
  · rfl

theorem ofStoredChars_plain {text : List Char} (h : ∀ c ∈ text, IsPlain c) (cs : List Char) :
    ofStoredChars (text ++ cs) = text.map .literal ++ ofStoredChars cs := by
  induction text with
  | nil => rfl
  | cons c text ih =>
    obtain ⟨hc, htext⟩ := List.forall_mem_cons.mp h
    simp only [IsPlain, List.mem_cons, not_or] at hc
    rw [List.cons_append, ofStoredChars, ih htext, List.map_cons, List.cons_append]
    · exact hc.1
    · exact hc.2.1
    · exact hc.2.2.1

/-! ## As path patterns -/

theorem closeBrackets_bracket (cs : List Char) : closeBrackets (']' :: cs) = .ok cs := rfl

theorem closeBrackets_unclosed {cs : List Char} (h : ']' ∉ cs) : ∃ e, closeBrackets cs = .error e := by
  cases cs with
  | nil => exact ⟨_, rfl⟩
  | cons c cs =>
    have hc : c ≠ ']' := fun heq => h (heq ▸ List.mem_cons_self)
    rw [closeBrackets, if_neg hc]
    split <;> exact ⟨_, rfl⟩

theorem listedChars_members {chars : List Char} (h : ∀ c ∈ chars, c ∉ [']', '\\', '\x00', '\ufffd'])
    (cs : List Char) : listedChars (chars ++ ']' :: cs) = (chars, ']' :: cs) := by
  induction chars with
  | nil => simp [listedChars]
  | cons c chars ih =>
    obtain ⟨hc, hchars⟩ := List.forall_mem_cons.mp h
    simp only [List.mem_cons, List.not_mem_nil, or_false, not_or] at hc
    rw [List.cons_append, listedChars, ih hchars, if_neg hc.2.2.1, if_neg (by simp [hc])]
    · exact fun heq _ => absurd heq hc.2.1
    · exact fun _ _ heq => absurd heq hc.2.1

theorem listedChars_suffix (cs : List Char) : (listedChars cs).2 <:+ cs := by
  fun_induction listedChars cs
  all_goals first
    | exact List.suffix_refl _
    | exact List.nil_suffix
    | exact List.suffix_cons _ _
    | exact (List.suffix_cons _ _).trans (List.suffix_cons _ _)
    | exact List.IsSuffix.trans (by assumption) (List.suffix_cons _ _)
    | exact List.IsSuffix.trans (by assumption) ((List.suffix_cons _ _).trans (List.suffix_cons _ _))

theorem readBrackets_unclosed {cs : List Char} (h : ']' ∉ cs) (negated : Bool) :
    ∃ e, readBrackets negated cs = .error e := by
  have hlisted : ∃ e, closeBrackets (listedChars cs).2 = .error e :=
    closeBrackets_unclosed fun hmem => h ((listedChars_suffix cs).subset hmem)
  fun_cases readBrackets negated cs
  case case7 lo _ hi more _ rest hclose _ =>
    have hmore : ']' ∉ more := fun hmem => h (by simp [hmem])
    obtain ⟨e, he⟩ := closeBrackets_unclosed hmore
    rw [he] at hclose
    cases hclose
  case case8 | case9 | case10 =>
    obtain ⟨e, he⟩ := hlisted
    rw [he]
    exact ⟨e, rfl⟩
  all_goals exact ⟨_, rfl⟩

theorem readRange_unclosed {cs : List Char} (h : ']' ∉ cs) : ∃ e, readRange cs = .error e := by
  rw [readRange.eq_def]
  split
  · exact readBrackets_unclosed (fun hmem => h (List.mem_cons_of_mem _ hmem)) true
  · exact readBrackets_unclosed h false

theorem readRange_first {c : Char} (hc : IsFirst c) (cs : List Char) :
    readRange (c :: cs) = readBrackets false (c :: cs) := by
  simp only [IsFirst, List.mem_cons, not_or] at hc
  rw [readRange]
  exact fun _ heq => absurd (List.cons.inj heq).1 hc.2.1

theorem endsPattern_eq_false {c : Char} (hnull : c ≠ '\x00') (hreplacement : c ≠ '\ufffd') :
    endsPattern c = false := by
  rw [endsPattern, beq_false_of_ne hnull, beq_false_of_ne hreplacement]
  rfl

theorem readRange_list {c : Char} {more : List Char} (hc : IsFirst c) (hmore : ∀ d ∈ more, IsMember d)
    (cs : List Char) :
    readRange (c :: (more ++ ']' :: cs)) = .ok (.listed false (c :: more), cs) := by
  have hlisted : listedChars (c :: (more ++ ']' :: cs)) = (c :: more, ']' :: cs) := by
    rw [← List.cons_append]
    apply listedChars_members
    simp only [IsFirst, IsMember, List.mem_cons, List.not_mem_nil, or_false, not_or] at hc hmore ⊢
    rintro d (rfl | hd)
    · exact ⟨hc.1, hc.2.2.2⟩
    · exact ⟨(hmore d hd).1, (hmore d hd).2.2⟩
  have hdash : ∀ tail, more ++ ']' :: cs ≠ '-' :: tail := by
    intro tail heq
    cases more with
    | nil => cases heq
    | cons d more =>
      obtain ⟨rfl, -⟩ := List.cons.inj heq
      exact hmore '-' List.mem_cons_self (by decide)
  rw [readRange_first hc]
  simp only [IsFirst, List.mem_cons, List.not_mem_nil, or_false, not_or] at hc
  rw [readBrackets, endsPattern_eq_false hc.2.2.2.2.1 hc.2.2.2.2.2]
  · simp only [hlisted, closeBrackets_bracket]
    rfl
  · exact hdash _
  · exact fun _ _ => hdash _

theorem readRange_range {lo hi : Char} (hlo : IsFirst lo) (hhi : hi ∉ [']', '\x00', '\ufffd']) (hle : lo ≤ hi)
    (cs : List Char) : readRange (lo :: '-' :: hi :: ']' :: cs) = .ok (.ranged false lo hi, cs) := by
  rw [readRange_first hlo]
  simp only [IsFirst, List.mem_cons, List.not_mem_nil, or_false, not_or] at hlo hhi
  rw [readBrackets, endsPattern_eq_false hlo.2.2.2.2.1 hlo.2.2.2.2.2, endsPattern_eq_false hhi.2.1 hhi.2.2,
    closeBrackets_bracket]
  simp [hle]

theorem IsPlain.ne_null {c : Char} (hc : IsPlain c) : c ≠ '\x00' := by
  rintro rfl
  exact absurd hc (by decide)

theorem IsPlain.endsText_eq {c : Char} (hc : IsPlain c) : endsText false c = false := by
  simp only [IsPlain, List.mem_cons, not_or] at hc
  simp [endsText, hc]

theorem readText_plain {c : Char} (hc : IsPlain c) {cs text rest : List Char}
    (h : readText false cs = .ok (text, rest)) : readText false (c :: cs) = .ok (c :: text, rest) := by
  have hends := hc.endsText_eq
  simp only [IsPlain, List.mem_cons, List.not_mem_nil, or_false, not_or] at hc
  obtain ⟨-, -, -, -, hescape, hnull, hreplacement⟩ := hc
  rw [readText, h, if_neg hnull, if_neg hreplacement, hends]
  · rfl
  · exact fun heq _ => absurd heq hescape
  · exact fun _ _ heq => absurd heq hescape

/-- Ordinary text is read up to the next character that is none. -/
theorem readText_shared {cs : List Char} (h : Shared cs) :
    ∃ text rest, readText false cs = .ok (text, rest) ∧ cs = text ++ rest ∧ (∀ c ∈ text, IsPlain c) ∧
      Shared rest := by
  induction h with
  | nil => exact ⟨[], [], rfl, rfl, List.forall_mem_nil _, .nil⟩
  | @plain c cs hc _ ih =>
    obtain ⟨text, rest, hread, rfl, htext, hrest⟩ := ih
    exact ⟨c :: text, rest, readText_plain hc hread, rfl, List.forall_mem_cons.mpr ⟨hc, htext⟩, hrest⟩
  | star h => exact ⟨[], _, rfl, rfl, List.forall_mem_nil _, .star h⟩
  | one h => exact ⟨[], _, rfl, rfl, List.forall_mem_nil _, .one h⟩
  | list hc hmore h => exact ⟨[], _, rfl, rfl, List.forall_mem_nil _, .list hc hmore h⟩
  | range hlo hhi hle h => exact ⟨[], _, rfl, rfl, List.forall_mem_nil _, .range hlo hhi hle h⟩
  | unclosed hend hnull => exact ⟨[], _, rfl, rfl, List.forall_mem_nil _, .unclosed hend hnull⟩

/-- What reading the rest of a path pattern gives, behind parts that have been read: parts that take what a
pattern of the store accepts, or an error where that accepts nothing. -/
inductive ReadsLike (before : List Part) (p : Pattern) : Except PathError (List Part) → Prop
  | parts (ps : List Part) (h : ∀ cs, AllTake [] ps cs ↔ p.Accepts cs) : ReadsLike before p (.ok (before ++ ps))
  | refused (e : PathError) (h : ∀ cs, ¬ p.Accepts cs) : ReadsLike before p (.error e)

/-- One part more, which takes what some pieces accept. -/
theorem ReadsLike.part {before : List Part} {part : Part} {ps p : Pattern} {read : Except PathError (List Part)}
    (hpart : ∀ cs, part.Takes [] cs ↔ ps.Accepts cs) (h : ReadsLike (before ++ [part]) p read) :
    ReadsLike before (ps ++ p) read := by
  cases h with
  | parts qs h =>
    rw [List.append_assoc]
    refine .parts _ fun cs => ?_
    simp only [List.singleton_append, AllTake, Pattern.accepts_append, hpart, h]
  | refused e h =>
    refine .refused e fun cs hcs => ?_
    obtain ⟨_, back, -, -, hback⟩ := Pattern.accepts_append.mp hcs
    exact h back hback

theorem accepts_singleton {p : Piece} {cs : List Char} : Pattern.Accepts [p] cs ↔ p.Takes cs := by
  simp [Pattern.Accepts]

theorem accepts_literals {text cs : List Char} : Pattern.Accepts (text.map .literal) cs ↔ cs = text := by
  induction text generalizing cs with
  | nil => rfl
  | cons c text ih => simp [Pattern.Accepts, Piece.Takes, ih]

theorem accepts_stars {cs : List Char} : Pattern.Accepts [.anyRun, .anyRun] cs ↔ True := by
  simp only [Pattern.Accepts, Piece.Takes, true_and, iff_true]
  exact ⟨cs, [], (List.append_nil cs).symm, [], [], rfl, rfl⟩

theorem inSome_listed {chars : List Char} {c : Char} :
    inSome (chars.map fun d => (d, d)) c = chars.contains c := by
  induction chars with
  | nil => rfl
  | cons d chars ih =>
    rw [inSome] at ih ⊢
    have hsame : (decide (d ≤ c) && decide (c ≤ d)) = (c == d) := by
      rw [Bool.eq_iff_iff, Bool.and_eq_true, decide_eq_true_iff, decide_eq_true_iff, beq_iff_eq]
      exact ⟨fun h => Char.le_antisymm h.2 h.1, fun h => h ▸ ⟨Char.le_refl c, Char.le_refl c⟩⟩
    rw [List.map_cons, List.any_cons, List.contains_cons, ih]
    exact congrArg (· || chars.contains c) hsame

theorem inSome_range {lo hi c : Char} (hle : lo ≤ hi) : inSome [(lo, lo), (lo, hi)] c = inRange lo hi c := by
  rw [inSome, inRange, Bool.eq_iff_iff]
  simp only [List.any_cons, List.any_nil, Bool.or_false, Bool.or_eq_true, Bool.and_eq_true, decide_eq_true_iff]
  refine ⟨fun h => ?_, .inr⟩
  rcases h with h | h
  · exact ⟨h.1, Char.le_trans h.2 hle⟩
  · exact h

/-! ## Reading parts -/

section

variable (fuel : Nat) (inner : Alternatives) (outer : List Alternatives)

theorem readParts_nil : readParts fuel inner [] [] = .ok (inner.parts.reverse ++ []) := by
  rw [List.append_nil]
  cases fuel <;> rfl

theorem readParts_brackets (cs : List Char) : readParts (fuel + 1) inner outer ('[' :: cs) =
    match readRange cs with
    | .error e => .error e
    | .ok (p, rest) => readParts fuel (inner.add p) outer rest :=
  rfl

theorem readParts_star {cs : List Char} (h : ∀ rest, cs ≠ '*' :: rest) :
    readParts (fuel + 1) inner outer ('*' :: cs) = readParts fuel (inner.add .run) outer cs := by
  rw [readParts]
  · rfl
  · exact h
  · exact fun _ _ heq _ => absurd heq (by decide)

theorem readParts_ordinary {c : Char} (cs : List Char) (hnull : c ≠ '\x00')
    (hends : endsText (!outer.isEmpty) c = false) : readParts (fuel + 1) inner outer (c :: cs) =
      match readText (!outer.isEmpty) (c :: cs) with
      | .error e => .error e
      | .ok (text, rest) => readParts fuel (if text.isEmpty then inner else inner.add (.text text)) outer rest := by
  simp only [endsText, Bool.or_eq_false_iff, beq_eq_false_iff_ne] at hends
  obtain ⟨⟨⟨⟨hquestion, hstar⟩, hbracket⟩, hbrace⟩, hopen⟩ := hends
  have hcomma : (c == ',' && !outer.isEmpty) = false := by
    cases outer with
    | nil => exact Bool.and_false _
    | cons around outer =>
      have hopen : c ≠ '\x7d' ∧ c ≠ ',' := by simpa using hopen
      simp [hopen.2]
  rw [readParts.eq_def]
  dsimp only
  rw [if_neg hnull, if_neg hbrace, hcomma, if_neg Bool.false_ne_true, if_neg hbracket, if_neg hquestion, if_neg hstar]
  split
  · simp at hopen
  · rfl

theorem readParts_text {c : Char} (hc : IsPlain c) {cs text rest : List Char}
    (hread : readText false (c :: cs) = .ok (c :: text, rest)) :
    readParts (fuel + 1) inner [] (c :: cs) = readParts fuel (inner.add (.text (c :: text))) [] rest := by
  rw [readParts_ordinary fuel inner [] cs hc.ne_null hc.endsText_eq]
  have hread : readText (!([] : List Alternatives).isEmpty) (c :: cs) = .ok (c :: text, rest) := hread
  rw [hread]
  rfl

end

/-- A shared pattern is read as the store reads it. -/
theorem readParts_shared {fuel : Nat} {cs : List Char} (h : Shared cs) (hfuel : cs.length ≤ fuel)
    (inner : Alternatives) :
    ReadsLike inner.parts.reverse (ofStoredChars cs) (readParts fuel inner [] cs) := by
  induction fuel generalizing cs inner with
  | zero =>
    obtain rfl := List.length_eq_zero_iff.mp (Nat.le_zero.mp hfuel)
    rw [readParts_nil]
    exact .parts [] fun _ => by rw [ofStoredChars]; rfl
  | succ fuel ih =>
    have hread : ∀ {part : Part} (ps : Pattern) {cs : List Char}, Shared cs → cs.length ≤ fuel →
        (∀ text, part.Takes [] text ↔ ps.Accepts text) →
        ReadsLike inner.parts.reverse (ps ++ ofStoredChars cs) (readParts fuel (inner.add part) [] cs) := by
      intro part ps cs h hfuel hpart
      have hrest := ih h hfuel (inner.add part)
      rw [Alternatives.add, List.reverse_cons] at hrest
      exact hrest.part hpart
    cases h with
    | nil =>
      rw [readParts_nil]
      exact .parts [] fun _ => by rw [ofStoredChars]; rfl
    | @plain c cs hc h =>
      obtain ⟨text, rest, htext, rfl, hplain, hrest⟩ := readText_shared h
      have hall : ∀ d ∈ c :: text, IsPlain d := List.forall_mem_cons.mpr ⟨hc, hplain⟩
      rw [readParts_text fuel inner hc (readText_plain hc htext), ← List.cons_append, ofStoredChars_plain hall]
      refine hread ((c :: text).map .literal) hrest ?_ fun cs => accepts_literals.symm
      simp only [List.length_cons, List.length_append] at hfuel
      omega
    | @star cs h =>
      by_cases hstar : ∃ rest, cs = '*' :: rest
      · obtain ⟨cs, rfl⟩ := hstar
        have hrest : Shared cs := by
          cases h with
          | plain hc => exact absurd (by decide) hc
          | star h => exact h
        have hstored : ofStoredChars ('*' :: '*' :: cs) = [.anyRun, .anyRun] ++ ofStoredChars cs := by
          rw [ofStoredChars, ofStoredChars]
          rfl
        rw [hstored]
        exact hread [.anyRun, .anyRun] hrest (Nat.le_of_succ_le (Nat.le_of_succ_le_succ hfuel))
          fun text => accepts_stars.symm
      · rw [readParts_star fuel inner [] fun rest hcs => hstar ⟨rest, hcs⟩, ofStoredChars]
        refine hread [.anyRun] h (Nat.le_of_succ_le_succ hfuel) fun text => ?_
        simp [accepts_singleton, Part.Takes, Piece.Takes]
    | @one cs h =>
      rw [ofStoredChars]
      refine hread [.anyOne] h (Nat.le_of_succ_le_succ hfuel) fun text => ?_
      simp [accepts_singleton, Part.Takes, Piece.Takes]
    | @list c more cs hc hmore h =>
      rw [readParts_brackets, readRange_list hc hmore, ofStoredChars_list hc hmore]
      refine hread [.oneIn false _] h ?_ fun text => ?_
      · simp only [List.length_cons, List.length_append] at hfuel
        omega
      · simp only [accepts_singleton, Part.Takes, Piece.Takes, inSome_listed]
    | @range lo hi cs hlo hhi hle h =>
      have hclose : hi ≠ ']' := fun heq => hhi (heq ▸ List.mem_cons_self)
      rw [readParts_brackets, readRange_range hlo hhi hle, ofStoredChars_range hlo hclose]
      refine hread [.oneIn false _] h ?_ fun text => ?_
      · simp only [List.length_cons] at hfuel
        omega
      · simp only [accepts_singleton, Part.Takes, Piece.Takes, inSome_range hle]
    | @unclosed cs hend =>
      obtain ⟨e, he⟩ := readRange_unclosed hend
      rw [readParts_brackets, he, ofStoredChars_unclosed hend]
      refine .refused e fun cs hcs => ?_
      obtain ⟨_, _, _, htakes, _⟩ := hcs
      exact htakes

/-- A shared pattern, read as a path pattern, means what the store matches. -/
theorem partsOf_shared {text : String} (h : Shared text.toList) :
    ReadsLike [] (Pattern.ofStored text) (partsOf text) :=
  ofStored_shared h ▸ readParts_shared h (Nat.le_refl _) {}

end OverloadDocs.Glob

namespace OverloadDocs.SearchFilter

open Glob

variable {α : Type}

/-- A pattern is not asked for when the name is not listed, nor when it is empty. -/
theorem keepsReference_of_unasked {f : SearchFilter α} {row : FunctionRow}
    (h : f.keepsName row.name = false ∨ f.filePattern = "") : f.keepsReference row = .ok (f.keepsStored row) := by
  rcases h with hname | hpattern
  · rw [keepsReference, keepsStored, hname]
    rfl
  · rw [keepsReference, keepsStored, hpattern]
    cases f.keepsName row.name <;> rfl

theorem keepsReference_of_shared {f : SearchFilter α} {row : FunctionRow} (hshared : Shared f.filePattern.toList)
    (hmeans : AsDocumented [] f.filePattern row.filePath) : f.keepsReference row = .ok (f.keepsStored row) := by
  by_cases hasked : f.keepsName row.name = false ∨ f.filePattern = ""
  · exact keepsReference_of_unasked hasked
  obtain ⟨hname, hne⟩ := not_or.mp hasked
  have hpattern : (f.filePattern == "") = false := beq_false_of_ne hne
  rw [keepsReference, keepsStored, hpattern, if_neg hne, Bool.of_not_eq_false hname, Bool.not_true,
    if_neg Bool.false_ne_true, Bool.true_and, Bool.false_or]
  have hread := partsOf_shared hshared
  cases hparts : partsOf f.filePattern with
  | error e =>
    have hpath : Matcher.ofPath [] f.filePattern = .error e := by
      rw [Matcher.ofPath, hparts]
      rfl
    rw [hparts] at hread
    cases hread with
    | refused _ hnone =>
      have hstored := mt Pattern.matches_iff.mp (hnone row.filePath.toList)
      rw [hpath, Bool.eq_false_iff.mpr hstored]
  | ok parts =>
    obtain ⟨m, hpath⟩ : ∃ m, Matcher.ofPath [] f.filePattern = .ok m := by
      rw [Matcher.ofPath, hparts]
      exact ⟨_, rfl⟩
    obtain ⟨answer, hanswer, htakes⟩ := hmeans parts m hparts hpath
    rw [hparts] at hread
    cases hread with
    | parts _ haccepts =>
      have hsame : answer = (Pattern.ofStored f.filePattern).matches row.filePath := by
        rw [Bool.eq_iff_iff, htakes, Pattern.matches_iff]
        exact haccepts _
      rw [hpath, ← hsame]
      exact hanswer

/-- Both searches ask a function for its name and the path of its file. Where the name is not listed or there is
no pattern they agree; and they agree on every pattern that both read alike, if what a path pattern is compiled
to answers as the pattern means it. -/
theorem keepsReference_eq_keepsStored (f : SearchFilter α) (row : FunctionRow) :
    (f.keepsName row.name = false ∨ f.filePattern = "" → f.keepsReference row = .ok (f.keepsStored row)) ∧
      (Shared f.filePattern.toList → AsDocumented [] f.filePattern row.filePath →
        f.keepsReference row = .ok (f.keepsStored row)) :=
  ⟨keepsReference_of_unasked, keepsReference_of_shared⟩

/-- A pattern with a star across folders, listed characters and a question mark, and a function it keeps. -/
theorem keepsReference_of_brackets :
    let f : SearchFilter Unit := { filePattern := "lib/*[ab].s?an", names := ["norm"], minRelevance := () }
    let row : FunctionRow := { name := "norm", filePath := "lib/x/a.stan" }
    Shared f.filePattern.toList ∧ AsDocumented [] f.filePattern row.filePath ∧
      f.keepsReference row = .ok (f.keepsStored row) ∧ f.keepsStored row = true := by
  intro f row
  have hpattern : f.filePattern.toList =
      ['l', 'i', 'b', '/', '*', '[', 'a', 'b', ']', '.', 's', '?', 'a', 'n'] := by
    decide
  have hshared : Shared f.filePattern.toList := by
    have hlast : Shared ['a', 'n'] := .plain (by decide) (.plain (by decide) .nil)
    have hbrackets : Shared ('[' :: 'a' :: (['b'] ++ ']' :: ['.', 's', '?', 'a', 'n'])) :=
      .list (by decide) (List.forall_mem_singleton.mpr (by decide))
        (.plain (by decide) (.plain (by decide) (.one hlast)))
    rw [hpattern]
    exact .plain (by decide) (.plain (by decide) (.plain (by decide) (.plain (by decide) (.star hbrackets))))
  have hmeans : AsDocumented [] f.filePattern row.filePath := by
    have hread : partsOf f.filePattern = .ok [.text ['l', 'i', 'b', '/'], .run, .listed false ['a', 'b'],
        .text ['.', 's'], .one, .text ['a', 'n']] := by
      rw [partsOf, hpattern]
      rfl
    have hanswer : (Matcher.ofPath [] f.filePattern).map (·.matchesText? row.filePath) = .ok (.ok true) := by
      decide +kernel
    have hpath : row.filePath.toList = ['l', 'i', 'b', '/', 'x', '/', 'a', '.', 's', 't', 'a', 'n'] := by
      decide
    intro parts m hparts hm
    obtain rfl := Except.ok.inj (hread.symm.trans hparts)
    rw [hm] at hanswer
    refine ⟨true, Except.ok.inj hanswer, fun _ => ?_, fun _ => rfl⟩
    rw [hpath]
    exact ⟨['l', 'i', 'b', '/'], _, rfl, rfl, ['x', '/'], _, rfl, fun _ _ => List.not_mem_nil,
      ['a'], _, rfl, ⟨'a', rfl, by decide⟩, ['.', 's'], _, rfl, rfl,
      ['t'], _, rfl, ⟨'t', rfl, List.not_mem_nil⟩, ['a', 'n'], [], rfl, rfl, rfl⟩
  exact ⟨hshared, hmeans, (keepsReference_eq_keepsStored f row).2 hshared hmeans, by decide +kernel⟩

/-- Alternatives, negations and an escape, each read in another way by the store; the first negation is answered
for as documented. -/
theorem keepsReference_of_braces :
    let row : FunctionRow := { name := "norm", filePath := "a.stan" }
    let keeps (pattern : String) : Except Overrun Bool × Bool :=
      let f : SearchFilter Unit := { filePattern := pattern, minRelevance := () }
      (f.keepsReference row, f.keepsStored row)
    (AsDocumented [] "[!b].stan" row.filePath ∧ keeps "[!b].stan" = (.ok true, false)) ∧
      keeps "\x7ba,b\x7d.stan" = (.ok true, false) ∧ keeps "[^b].stan" = (.ok false, true) ∧
      keeps "\\a.stan" = (.ok true, false) := by
  have hmeans : AsDocumented [] "[!b].stan" "a.stan" := by
    have hpattern : "[!b].stan".toList = ['[', '!', 'b', ']', '.', 's', 't', 'a', 'n'] := by decide
    have hread : partsOf "[!b].stan" = .ok [.listed true ['b'], .text ['.', 's', 't', 'a', 'n']] := by
      rw [partsOf, hpattern]
      rfl
    have hanswer : (Matcher.ofPath [] "[!b].stan").map (·.matchesText? "a.stan") = .ok (.ok true) := by
      decide +kernel
    have htext : "a.stan".toList = ['a', '.', 's', 't', 'a', 'n'] := by decide
    intro parts m hparts hm
    obtain rfl := Except.ok.inj (hread.symm.trans hparts)
    rw [hm] at hanswer
    refine ⟨true, Except.ok.inj hanswer, fun _ => ?_, fun _ => rfl⟩
    rw [htext]
    exact ⟨['a'], _, rfl, ⟨'a', rfl, by decide⟩, ['.', 's', 't', 'a', 'n'], [], rfl, rfl, rfl⟩
  exact ⟨⟨hmeans, by decide +kernel⟩, by decide +kernel, by decide +kernel, by decide +kernel⟩

end OverloadDocs.SearchFilter
