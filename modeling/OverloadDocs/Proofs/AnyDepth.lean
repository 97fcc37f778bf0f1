import OverloadDocs.Discovery
import OverloadDocs.Proofs.SharedPatterns

/-!
Patterns that begin with any folders. Such a pattern covers a path when the rest of it matches what stands behind one
of the slashes, and a path without a slash also when the rest matches the path as a whole. A path in a folder is not
asked as a whole, so that a rest with a folder of its own does not cover the paths in that folder at the top.
-/

namespace OverloadDocs.Glob

/-! ## What reading leaves -/

theorem closeBrackets_suffix {cs rest : List Char} (h : closeBrackets cs = .ok rest) : rest <:+ cs := by
  cases cs with
  | nil => cases h
  | cons c cs =>
    rw [closeBrackets] at h
    split at h
    · cases h
    · split at h
      · cases h
        exact List.suffix_cons c _
      · cases h

theorem readBrackets_suffix {negated : Bool} {cs rest : List Char} {part : Part}
    (h : readBrackets negated cs = .ok (part, rest)) : rest <:+ cs := by
  revert h
  fun_cases readBrackets negated cs
  case case7 lo _ hi more _ rest hclose _ =>
    rintro ⟨⟩
    exact (closeBrackets_suffix hclose).trans ⟨[lo, '-', hi], rfl⟩
  case case8 | case9 | case10 =>
    intro h
    split at h
    · cases h
    · rename_i hclose
      split at h
      · cases h
      · cases h
        exact (closeBrackets_suffix hclose).trans (listedChars_suffix _)
  all_goals exact nofun

theorem readRange_suffix {cs rest : List Char} {part : Part} (h : readRange cs = .ok (part, rest)) : rest <:+ cs := by
  rw [readRange.eq_def] at h
  split at h
  · exact (readBrackets_suffix h).trans (List.suffix_cons _ _)
  · exact readBrackets_suffix h

theorem ok_of_map_eq_ok {ε α β : Type} {f : α → β} {result : Except ε α} {b : β} (h : result.map f = .ok b) :
    ∃ a, result = .ok a ∧ f a = b := by
  cases result with
  | error e => cases h
  | ok a => exact ⟨a, rfl, Except.ok.inj h⟩

theorem readText_suffix {inBraces : Bool} {cs text rest : List Char} (h : readText inBraces cs = .ok (text, rest)) :
    rest <:+ cs := by
  fun_induction readText inBraces cs generalizing text rest with
  | case1 | case2 =>
    cases h
    exact List.nil_suffix
  | case3 cs =>
    cases h
    exact ⟨['\\', '\x00'], rfl⟩
  | case4 | case7 => cases h
  | case5 c cs hnull hreplacement ih =>
    obtain ⟨⟨text, rest⟩, hread, heq⟩ := ok_of_map_eq_ok h
    cases heq
    exact (ih hread).trans ⟨['\\', c], rfl⟩
  | case6 cs =>
    cases h
    exact List.suffix_cons _ _
  | case8 =>
    cases h
    exact List.suffix_rfl
  | case9 c cs _ _ hnull hreplacement hends ih =>
    obtain ⟨⟨text, rest⟩, hread, heq⟩ := ok_of_map_eq_ok h
    cases heq
    exact (ih hread).trans (List.suffix_cons c cs)

/-- Text that begins with an ordinary character takes at least that character. -/
theorem readText_cons_suffix {inBraces : Bool} {c : Char} {cs text rest : List Char} (hnull : c ≠ '\x00')
    (hends : endsText inBraces c = false) (h : readText inBraces (c :: cs) = .ok (text, rest)) : rest <:+ cs := by
  rw [readText.eq_def] at h
  split at h
  · rename_i heq
    cases heq
  · rename_i heq
    cases heq
    cases h
    exact List.nil_suffix
  · rename_i d ds heq
    cases heq
    split at h
    · cases h
      exact List.suffix_cons _ _
    · split at h
      · cases h
      · obtain ⟨⟨text, rest⟩, hread, heq⟩ := ok_of_map_eq_ok h
        cases heq
        exact (readText_suffix hread).trans (List.suffix_cons d ds)
  · rename_i heq
    cases heq
    rw [if_neg hnull] at h
    split at h
    · cases h
    · rw [hends, if_neg Bool.false_ne_true] at h
      obtain ⟨⟨text, rest⟩, hread, heq⟩ := ok_of_map_eq_ok h
      cases heq
      exact readText_suffix hread

/-! ## Parts behind others -/

/-- The same alternatives, with parts that were read before the outermost of them. -/
inductive Behind (before : List Part) :
    Alternatives → List Alternatives → Alternatives → List Alternatives → Prop where
  | outermost (complete parts : List Part) :
      Behind before ⟨complete, parts⟩ [] ⟨complete, parts ++ before⟩ []
  | inside (inner : Alternatives) {around around' : Alternatives} {outer outer' : List Alternatives}
      (h : Behind before around outer around' outer') :
      Behind before inner (around :: outer) inner (around' :: outer')

namespace Behind

variable {before : List Part} {inner inner' : Alternatives} {outer outer' : List Alternatives}

theorem isEmpty_eq (h : Behind before inner outer inner' outer') : outer'.isEmpty = outer.isEmpty := by
  cases h with
  | outermost => rfl
  | inside => rfl

theorem add (h : Behind before inner outer inner' outer') (p : Part) :
    Behind before (inner.add p) outer (inner'.add p) outer' := by
  cases h with
  | outermost complete parts => exact .outermost complete (p :: parts)
  | inside inner h => exact .inside (inner.add p) h

theorem closeAll_eq (h : Behind before inner outer inner' outer') :
    closeAll inner' outer' = before.reverse ++ closeAll inner outer := by
  induction outer generalizing inner inner' outer' with
  | nil =>
    cases h with
    | outermost complete parts => exact List.reverse_append
  | cons around outer ih =>
    cases h with
    | inside inner h =>
      rw [closeAll, closeAll]
      exact ih (h.add inner.close)

end Behind

/-- One step of reading goes the same way behind other parts, if what follows does. -/
theorem readParts_cons_behind {before : List Part} {fuel fuel' : Nat} {c : Char} {cs : List Char}
    {inner inner' : Alternatives} {outer outer' : List Alternatives}
    (hlater : ∀ {rest inner inner' outer outer'}, rest <:+ cs → Behind before inner outer inner' outer' →
      readParts fuel' inner' outer' rest = (readParts fuel inner outer rest).map (before.reverse ++ ·))
    (h : Behind before inner outer inner' outer') :
    readParts (fuel' + 1) inner' outer' (c :: cs) =
      (readParts (fuel + 1) inner outer (c :: cs)).map (before.reverse ++ ·) := by
  by_cases hnull : c = '\x00'
  · subst hnull
    exact congrArg Except.ok h.closeAll_eq
  cases hends : endsText (!outer.isEmpty) c with
  | false =>
    -- of the alternatives only this is asked, whether there are braces around
    have hends' : endsText (!outer'.isEmpty) c = false := h.isEmpty_eq ▸ hends
    rw [readParts_ordinary fuel' inner' outer' cs hnull hends', readParts_ordinary fuel inner outer cs hnull hends,
      h.isEmpty_eq]
    cases hread : readText (!outer.isEmpty) (c :: cs) with
    | error e => rfl
    | ok read =>
      obtain ⟨text, rest⟩ := read
      have hrest := readText_cons_suffix hnull hends hread
      dsimp only
      split
      · exact hlater hrest h
      · exact hlater hrest (h.add _)
  | true =>
    have hcases : c = '?' ∨ c = '*' ∨ c = '[' ∨ c = '\x7b' ∨ outer.isEmpty = false ∧ (c = '\x7d' ∨ c = ',') := by
      simpa [endsText, or_assoc] using hends
    rcases hcases with rfl | rfl | rfl | rfl | ⟨hopen, rfl | rfl⟩
    · exact hlater List.suffix_rfl (h.add .one)
    · by_cases hstar : ∃ rest, cs = '*' :: rest
      · obtain ⟨cs, rfl⟩ := hstar
        exact hlater (List.suffix_cons _ _) (h.add .anything)
      · have hstar : ∀ rest, cs ≠ '*' :: rest := fun rest heq => hstar ⟨rest, heq⟩
        rw [readParts_star fuel' inner' outer' hstar, readParts_star fuel inner outer hstar]
        exact hlater List.suffix_rfl (h.add .run)
    · rw [readParts_brackets, readParts_brackets]
      cases hread : readRange cs with
      | error e => rfl
      | ok read => exact hlater (readRange_suffix hread) (h.add read.1)
    · exact hlater List.suffix_rfl (.inside {} h)
    · cases h with
      | outermost => cases hopen
      | inside inner h => exact hlater List.suffix_rfl (h.add inner.close)
    · cases h with
      | outermost => cases hopen
      | inside inner h => exact hlater List.suffix_rfl (.inside inner.next h)

/-- Reading goes the same way behind other parts, however much fuel there is beyond the length of the text. -/
theorem readParts_behind {before : List Part} {fuel fuel' : Nat} {cs : List Char} {inner inner' : Alternatives}
    {outer outer' : List Alternatives} (h : Behind before inner outer inner' outer') (hfuel : cs.length ≤ fuel)
    (hfuel' : cs.length ≤ fuel') :
    readParts fuel' inner' outer' cs = (readParts fuel inner outer cs).map (before.reverse ++ ·) := by
  induction fuel generalizing fuel' cs inner inner' outer outer' with
  | zero =>
    obtain rfl := List.length_eq_zero_iff.mp (Nat.le_zero.mp hfuel)
    cases fuel' <;> exact congrArg Except.ok h.closeAll_eq
  | succ fuel ih =>
    cases cs with
    | nil => cases fuel' <;> exact congrArg Except.ok h.closeAll_eq
    | cons c cs =>
      cases fuel' with
      | zero => cases hfuel'
      | succ fuel' =>
        refine readParts_cons_behind (fun hrest hbehind => ih hbehind ?_ ?_) h
        · exact hrest.length_le.trans (Nat.le_of_succ_le_succ hfuel)
        · exact hrest.length_le.trans (Nat.le_of_succ_le_succ hfuel')

theorem readParts_from {fuel : Nat} {cs : List Char} (parts : List Part) (hfuel : cs.length ≤ fuel) :
    readParts fuel ⟨[], parts⟩ [] cs = (readParts cs.length {} [] cs).map (parts.reverse ++ ·) :=
  readParts_behind (.outermost [] []) (Nat.le_refl _) hfuel

/-! ## Patterns behind a slash -/

/-- The part of a text, none of the empty text. -/
def textParts (text : List Char) : List Part := if text.isEmpty then [] else [.text text]

theorem allTake_textParts {separators text cs : List Char} {parts : List Part} :
    AllTake separators (textParts text ++ parts) cs ↔ ∃ rest, cs = text ++ rest ∧ AllTake separators parts rest := by
  cases text with
  | nil => simp [textParts]
  | cons c text =>
    constructor
    · rintro ⟨_, rest, rfl, rfl, hrest⟩
      exact ⟨rest, rfl, hrest⟩
    · rintro ⟨rest, rfl, hrest⟩
      exact ⟨c :: text, rest, rfl, rfl, hrest⟩

theorem readText_of_ends {inBraces : Bool} {c : Char} (hends : endsText inBraces c = true) (cs : List Char) :
    readText inBraces (c :: cs) = .ok ([], c :: cs) := by
  have hc : c ≠ '\\' ∧ c ≠ '\x00' ∧ c ≠ '\ufffd' := by
    refine ⟨?_, ?_, ?_⟩
    all_goals
      rintro rfl
      simp [endsText] at hends
  rw [readText, if_neg hc.2.1, if_neg hc.2.2, if_pos hends]
  · exact fun heq _ => absurd heq hc.1
  · exact fun _ _ heq => absurd heq hc.1

/-- The parts of a pattern, where the text that it begins with, which may be empty, makes the first of them. -/
def readLed (lead : List Char → List Part) (cs : List Char) : Except PathError (List Part) :=
  (readText false cs).bind fun read => (readParts read.2.length {} [] read.2).map (lead read.1 ++ ·)

theorem readLed_eq {lead : List Char → List Part} {cs text rest : List Char}
    (h : readText false cs = .ok (text, rest)) :
    readLed lead cs = (readParts rest.length {} [] rest).map (lead text ++ ·) := by
  rw [readLed, h]
  rfl

theorem readParts_led {fuel : Nat} {cs : List Char} (parts : List Part) (hfuel : cs.length ≤ fuel)
    (hnull : cs.head? ≠ some '\x00') :
    readParts fuel ⟨[], parts⟩ [] cs = readLed (parts.reverse ++ textParts ·) cs := by
  have hempty : parts.reverse ++ textParts [] = parts.reverse := List.append_nil _
  cases cs with
  | nil =>
    have hread : readText false [] = .ok ([], []) := rfl
    rw [readLed_eq hread, hempty]
    exact readParts_from parts hfuel
  | cons c cs =>
    cases hends : endsText false c with
    | true =>
      rw [readLed_eq (readText_of_ends hends cs), hempty]
      exact readParts_from parts hfuel
    | false =>
      cases fuel with
      | zero => cases hfuel
      | succ fuel =>
        have hnull : c ≠ '\x00' := fun heq => hnull (congrArg some heq)
        have hordinary := readParts_ordinary fuel ⟨[], parts⟩ [] cs hnull hends
        rw [List.isEmpty_nil, Bool.not_true] at hordinary
        rw [hordinary]
        cases hread : readText false (c :: cs) with
        | error e =>
          rw [readLed, hread]
          rfl
        | ok read =>
          obtain ⟨text, rest⟩ := read
          have hrest := (readText_cons_suffix hnull hends hread).length_le.trans (Nat.le_of_succ_le_succ hfuel)
          rw [readLed_eq hread]
          cases text with
          | nil =>
            rw [hempty]
            exact readParts_from parts hrest
          | cons d text =>
            refine (readParts_from (.text (d :: text) :: parts) hrest).trans ?_
            rw [List.reverse_cons]
            rfl

/-- A pattern text as it is read behind a slash, where a null character at its front ends nothing. -/
def behindSlash (text : String) : String :=
  match text.toList with
  | '\x00' :: cs => String.ofList cs
  | _ => text

theorem partsOf_behindSlash (text : String) : partsOf (behindSlash text) = readLed textParts text.toList := by
  rw [behindSlash, partsOf]
  split
  · rename_i cs htext
    have hread : readText false ('\x00' :: cs) = .ok ([], cs) := rfl
    rw [htext, String.toList_ofList, readLed_eq hread]
    exact readParts_from [] (Nat.le_refl _)
  · rename_i hnull
    refine readParts_led [] (Nat.le_refl _) fun hhead => ?_
    obtain ⟨cs, hcs⟩ := List.head?_eq_some_iff.mp hhead
    exact hnull cs hcs

theorem toList_anyFolders (text : String) : ("**/" ++ text).toList = '*' :: '*' :: '/' :: text.toList := by
  rw [String.toList_append]
  rfl

theorem partsOf_anyFolders (text : String) :
    partsOf ("**/" ++ text) = readLed (fun s => [.anything, .text ('/' :: s)]) text.toList := by
  have hslash : readText false ('/' :: text.toList) =
      (readText false text.toList).map fun read => ('/' :: read.1, read.2) := by
    rw [readText]
    · rfl
    · exact fun heq => absurd heq (by decide)
    · exact fun _ _ heq => absurd heq (by decide)
  have hfuel : ('/' :: text.toList).length ≤ text.toList.length + 2 := Nat.le_succ _
  have hled := readParts_led [.anything] hfuel (by simp)
  rw [partsOf, toList_anyFolders]
  refine Eq.trans hled ?_
  rw [readLed, hslash, readLed]
  cases readText false text.toList with
  | error e => rfl
  | ok read => rfl

/-- The texts that a pattern is documented to match. -/
def Matches (separators : List Char) (pattern : String) (cs : List Char) : Prop :=
  ∃ parts, partsOf pattern = .ok parts ∧ AllTake separators parts cs

/-- A pattern that begins with any folders matches what has the rest of the pattern behind a slash. -/
theorem matches_anyFolders {separators cs : List Char} {text : String} :
    Matches separators ("**/" ++ text) cs ↔
      ∃ front back, cs = front ++ '/' :: back ∧ Matches separators (behindSlash text) back := by
  simp only [Matches, partsOf_anyFolders, partsOf_behindSlash, readLed]
  cases readText false text.toList with
  | error e => simp [Except.bind]
  | ok read =>
    obtain ⟨s, rest⟩ := read
    simp only [Except.bind]
    cases readParts rest.length {} [] rest with
    | error e => simp [Except.map]
    | ok parts =>
      simp only [Except.map, Except.ok.injEq, exists_eq_left', allTake_textParts]
      constructor
      · rintro ⟨front, _, rfl, -, _, back, rfl, rfl, hback⟩
        exact ⟨front, s ++ back, rfl, back, rfl, hback⟩
      · rintro ⟨front, _, rfl, back, rfl, hback⟩
        exact ⟨front, _, rfl, trivial, '/' :: s, back, rfl, rfl, hback⟩

end OverloadDocs.Glob

namespace OverloadDocs.PathPattern

open Glob

theorem matches_of_ofPath {pattern path : String} {m : Matcher} (hm : Matcher.ofPath separators pattern = .ok m)
    (h : AsDocumented separators pattern path) :
    ∃ answer, m.matchesText? path = .ok answer ∧ (answer ↔ Matches separators pattern path.toList) := by
  obtain ⟨parts, hparts, -⟩ := ok_of_map_eq_ok hm
  obtain ⟨answer, hanswer, hiff⟩ := h parts m hparts hm
  refine ⟨answer, hanswer, hiff.trans ⟨fun htake => ⟨parts, hparts, htake⟩, ?_⟩⟩
  rintro ⟨_, hparts', htake⟩
  cases hparts.symm.trans hparts'
  exact htake

theorem not_matches_of_ofPath {pattern : String} {e : PathError}
    (he : Matcher.ofPath separators pattern = .error e) (cs : List Char) : ¬Matches separators pattern cs := by
  rintro ⟨parts, hparts, -⟩
  rw [Matcher.ofPath, hparts] at he
  cases he

theorem ofText_anyFolders {text : String} {p : PathPattern} (hp : ofText ("**/" ++ text) = .ok p) :
    ∃ m, Matcher.ofPath separators ("**/" ++ text) = .ok m ∧
      p = ⟨m, (Matcher.ofPath separators text).toOption⟩ := by
  have hrest : afterAnyFolders? ("**/" ++ text) = some text := by
    rw [afterAnyFolders?, toList_anyFolders]
    exact congrArg some String.ofList_toList
  rw [ofText, hrest] at hp
  cases hm : Matcher.ofPath separators ("**/" ++ text) with
  | error e =>
    rw [hm] at hp
    cases hp
  | ok m =>
    rw [hm] at hp
    exact ⟨m, rfl, (Except.ok.inj hp).symm⟩

/-- A pattern answers what its matcher does, and for a path without a slash also what its variant does. -/
theorem covers?_eq {p : PathPattern} {path : String} {below whole : Bool}
    (hbelow : p.matcher.matchesText? path = .ok below)
    (hwhole : (p.atTop.map (·.matchesText? path)).getD (.ok false) = .ok whole) :
    p.covers? path = .ok (below || !path.toList.contains '/' && whole) := by
  rw [covers?, hbelow]
  cases below with
  | true => rfl
  | false =>
    cases htop : p.atTop with
    | none =>
      rw [htop] at hwhole
      cases hwhole
      rw [Bool.and_false]
      rfl
    | some t =>
      rw [htop] at hwhole
      have hanswer : t.matchesText? path = .ok whole := hwhole
      cases hslash : path.toList.contains '/' with
      | true => simp [bind, Except.bind, pure, Except.pure]
      | false => simp [hanswer, bind, Except.bind]

theorem someCovers?_singleton {p : PathPattern} {path : String} {answer : Bool} (h : p.covers? path = .ok answer) :
    someCovers? path [p] = .ok answer := by
  rw [someCovers?, h]
  cases answer with
  | true => rfl
  | false => rfl

/-- A pattern that begins with any folders covers what its rest matches behind a slash, and a path without a slash
that its rest matches. -/
theorem someCovers?_anyFolders {text path : String} {p : PathPattern} (hp : ofText ("**/" ++ text) = .ok p)
    (hbelow : AsDocumented separators ("**/" ++ text) path) (htop : AsDocumented separators text path) :
    ∃ answer, someCovers? path [p] = .ok answer ∧
      (answer ↔ ('/' ∉ path.toList ∧ Matches separators text path.toList) ∨
        ∃ front back, path.toList = front ++ '/' :: back ∧ Matches separators (behindSlash text) back) := by
  obtain ⟨m, hm, rfl⟩ := ofText_anyFolders hp
  obtain ⟨below, hanswer, hiff⟩ := matches_of_ofPath hm hbelow
  rw [matches_anyFolders] at hiff
  have hwhole : ∃ whole : Bool, (((Matcher.ofPath separators text).toOption).map (·.matchesText? path)).getD
      (.ok false) = .ok whole ∧ (whole ↔ Matches separators text path.toList) := by
    cases hrest : Matcher.ofPath separators text with
    | error e => exact ⟨false, rfl, by simp [not_matches_of_ofPath hrest]⟩
    | ok t => exact matches_of_ofPath hrest htop
  obtain ⟨whole, htopAnswer, hwhole⟩ := hwhole
  refine ⟨_, someCovers?_singleton (covers?_eq hanswer htopAnswer), ?_⟩
  rw [Bool.or_eq_true, Bool.and_eq_true, hiff, hwhole, or_comm]
  simp

/-- The pattern for the sources of all folders, and a source at the top. -/
theorem someCovers?_source_at_top :
    ∃ p, ofText ("**/" ++ "*.stan") = .ok p ∧ AsDocumented separators ("**/" ++ "*.stan") "a.stan" ∧
      AsDocumented separators "*.stan" "a.stan" ∧
      ∃ answer, someCovers? "a.stan" [p] = .ok answer ∧
        (answer ↔ ('/' ∉ "a.stan".toList ∧ Matches separators "*.stan" "a.stan".toList) ∨
          ∃ front back, "a.stan".toList = front ++ '/' :: back ∧ Matches separators (behindSlash "*.stan") back) := by
  have hrun : ∀ c ∈ ['a'], c ∉ separators := List.forall_mem_singleton.mpr (by decide)
  have hpath : "a.stan".toList = ['a', '.', 's', 't', 'a', 'n'] := by decide
  have htop : AsDocumented separators "*.stan" "a.stan" := by
    have hpattern : "*.stan".toList = ['*', '.', 's', 't', 'a', 'n'] := by decide
    have hread : partsOf "*.stan" = .ok [.run, .text ['.', 's', 't', 'a', 'n']] := by
      rw [partsOf, hpattern]
      rfl
    refine asDocumented_of_answer true hread (by decide +kernel) ⟨fun _ => ?_, fun _ => rfl⟩
    rw [hpath]
    exact ⟨['a'], _, rfl, hrun, ['.', 's', 't', 'a', 'n'], [], rfl, rfl, rfl⟩
  have hpattern : ("**/" ++ "*.stan").toList = ['*', '*', '/', '*', '.', 's', 't', 'a', 'n'] := by decide
  have hread : partsOf ("**/" ++ "*.stan") = .ok [.anything, .text ['/'], .run, .text ['.', 's', 't', 'a', 'n']] := by
    rw [partsOf, hpattern]
    rfl
  have hbelow : AsDocumented separators ("**/" ++ "*.stan") "a.stan" := by
    refine asDocumented_of_answer false hread (by decide +kernel)
      ⟨fun hfalse => absurd hfalse Bool.false_ne_true, fun htake => ?_⟩
    obtain ⟨front, back, hcut, -⟩ := matches_anyFolders.mp ⟨_, hread, htake⟩
    have hslash : '/' ∈ "a.stan".toList := hcut ▸ List.mem_append_right front List.mem_cons_self
    exact absurd hslash (by decide)
  obtain ⟨p, hp⟩ : ∃ p, ofText ("**/" ++ "*.stan") = .ok p := by
    rw [ofText, Matcher.ofPath, hread]
    exact ⟨_, rfl⟩
  exact ⟨p, hp, hbelow, htop, someCovers?_anyFolders hp hbelow htop⟩

/-- The pattern for the sources of all folders with one name, and such a folder at the top: the rest of the pattern
matches the path, and the pattern does not cover it. -/
theorem someCovers?_folder_at_top :
    AsDocumented separators ("**/" ++ "src/*.stan") "src/a.stan" ∧ AsDocumented separators "src/*.stan" "src/a.stan" ∧
      Matches separators "src/*.stan" "src/a.stan".toList ∧
      (ofText ("**/" ++ "src/*.stan")).map (someCovers? "src/a.stan" [·]) = .ok (.ok false) := by
  have hrun : ∀ c ∈ ['a'], c ∉ separators := List.forall_mem_singleton.mpr (by decide)
  have hpath : "src/a.stan".toList = ['s', 'r', 'c', '/', 'a', '.', 's', 't', 'a', 'n'] := by decide
  have hpattern : "src/*.stan".toList = ['s', 'r', 'c', '/', '*', '.', 's', 't', 'a', 'n'] := by decide
  have hread : partsOf "src/*.stan" = .ok [.text ['s', 'r', 'c', '/'], .run, .text ['.', 's', 't', 'a', 'n']] := by
    rw [partsOf, hpattern]
    rfl
  have htake : AllTake separators [.text ['s', 'r', 'c', '/'], .run, .text ['.', 's', 't', 'a', 'n']]
      "src/a.stan".toList := by
    rw [hpath]
    exact ⟨['s', 'r', 'c', '/'], _, rfl, rfl, ['a'], _, rfl, hrun, ['.', 's', 't', 'a', 'n'], [], rfl, rfl, rfl⟩
  have htop : AsDocumented separators "src/*.stan" "src/a.stan" :=
    asDocumented_of_answer true hread (by decide +kernel) ⟨fun _ => htake, fun _ => rfl⟩
  have hbelow : AsDocumented separators ("**/" ++ "src/*.stan") "src/a.stan" := by
    have hpattern' : ("**/" ++ "src/*.stan").toList =
        ['*', '*', '/', 's', 'r', 'c', '/', '*', '.', 's', 't', 'a', 'n'] := by
      decide
    have hread' : partsOf ("**/" ++ "src/*.stan") =
        .ok [.anything, .text ['/', 's', 'r', 'c', '/'], .run, .text ['.', 's', 't', 'a', 'n']] := by
      rw [partsOf, hpattern']
      rfl
    refine asDocumented_of_answer false hread' (by decide +kernel)
      ⟨fun hfalse => absurd hfalse Bool.false_ne_true, fun htake => ?_⟩
    obtain ⟨front, _, hcut, -, _, _, rfl, rfl, run, _, rfl, -, _, _, rfl, rfl, rfl⟩ := htake
    rw [hpath] at hcut
    -- the folder is at the top, and there is no room for a slash before it
    cases front with
    | nil => cases hcut
    | cons c front =>
      have hlength := congrArg List.length hcut
      simp at hlength
      omega
  exact ⟨hbelow, htop, ⟨_, hread, htake⟩, by decide +kernel⟩

end OverloadDocs.PathPattern
