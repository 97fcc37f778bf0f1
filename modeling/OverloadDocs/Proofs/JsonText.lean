import OverloadDocs.Json.Parser
import OverloadDocs.Json.Printer

/-!
The compact text of a JSON value is read back to the value. This is about values made of texts, lists and
objects, whose strings can hold any characters; the escapes of a string and the nesting of values are
followed by one lemma for each reader, and the fuel of the reader is never short of the length of the text.
-/

namespace OverloadDocs.Json

/-- Values of texts, lists and objects that are nested at most so deep. -/
def Textual : (depth : Nat) → Json → Prop
  | _, .str _ => True
  | depth + 1, .arr items => ∀ j ∈ items, Textual depth j
  | depth + 1, .obj members => ∀ m ∈ members, Textual depth m.2
  | _, _ => False

theorem textual_str (depth : Nat) (s : String) : Textual depth (.str s) := by
  cases depth <;> trivial

/-! ## Strings -/

theorem hexValue?_digitChar : ∀ n < 16, hexValue? (Nat.digitChar n) = some n := by decide

theorem hexUnit?_hexDigits {n : Nat} (hn : n < 65536) :
    ∃ a b c d, Text.hexDigits 4 n = [a, b, c, d] ∧ hexUnit? a b c d = some n := by
  refine ⟨_, _, _, _, rfl, ?_⟩
  rw [hexUnit?, hexValue?_digitChar _ (Nat.mod_lt _ (by decide)),
    hexValue?_digitChar _ (Nat.mod_lt _ (by decide)),
    hexValue?_digitChar _ (Nat.mod_lt _ (by decide)),
    hexValue?_digitChar _ (Nat.mod_lt _ (by decide))]
  simp only [bind, Option.bind, pure, Option.some.injEq]
  omega

/-- What a reader of units hands on when one more character stands in front. -/
def withUnit (c : Char) (read : Option (List Nat × List Char)) : Option (List Nat × List Char) :=
  read.map fun (units, after) => (c.toNat :: units, after)

theorem readUnits_short {c e : Char} (hu : e ≠ 'u') (he : shortEscape? e = some c) (tail : List Char) :
    readUnits ('\\' :: e :: tail) = withUnit c (readUnits tail) := by
  rw [readUnits]
  · rw [he]
    cases readUnits tail <;> rfl
  · intros
    exact hu ‹_›

theorem readUnits_hex {c : Char} (hc : c.toNat < 65536) (tail : List Char) :
    readUnits ('\\' :: 'u' :: Text.hexDigits 4 c.toNat ++ tail) = withUnit c (readUnits tail) := by
  obtain ⟨h₁, h₂, h₃, h₄, hdigits, hunit⟩ := hexUnit?_hexDigits hc
  rw [hdigits]
  simp only [List.cons_append, List.nil_append]
  rw [readUnits, hunit]
  cases readUnits tail <;> rfl

theorem readUnits_plain {c : Char} (hquote : c ≠ '"') (hslash : c ≠ '\\') (hcontrol : ¬ c.toNat < 0x20)
    (tail : List Char) : readUnits (c :: tail) = withUnit c (readUnits tail) := by
  rw [readUnits]
  · rw [if_neg hcontrol]
    cases readUnits tail <;> rfl
  all_goals
    intros
    first | exact hquote ‹_› | exact hslash ‹_›

/-- A character is read off its escape. -/
theorem readUnits_escapedChar (c : Char) (tail : List Char) :
    readUnits (escapedChar c ++ tail) = withUnit c (readUnits tail) := by
  unfold escapedChar
  split
  · rename_i h
    rcases h with rfl | rfl
    · exact readUnits_short (by decide) (by decide) tail
    · exact readUnits_short (by decide) (by decide) tail
  rename_i hplain
  split
  · subst_vars
    exact readUnits_short (by decide) (by decide) tail
  split
  · subst_vars
    exact readUnits_short (by decide) (by decide) tail
  split
  · subst_vars
    exact readUnits_short (by decide) (by decide) tail
  split
  · subst_vars
    exact readUnits_short (by decide) (by decide) tail
  split
  · subst_vars
    exact readUnits_short (by decide) (by decide) tail
  split
  · rename_i h
    apply readUnits_hex
    rcases h with h | rfl | rfl | rfl | rfl | rfl
    · omega
    all_goals decide
  · rename_i h
    rw [not_or] at h hplain
    exact readUnits_plain hplain.1 hplain.2 h.1 tail

theorem readUnits_flatMap (cs rest : List Char) :
    readUnits (cs.flatMap escapedChar ++ '"' :: rest) = some (cs.map Char.toNat, rest) := by
  induction cs with
  | nil => rw [List.flatMap_nil, List.nil_append, readUnits, List.map_nil]
  | cons c cs ih =>
      rw [List.flatMap_cons, List.append_assoc, readUnits_escapedChar, ih]
      rfl

theorem not_surrogate (c : Char) : isHighUnit c.toNat = false ∧ isLowUnit c.toNat = false := by
  have hvalid := c.valid
  rw [isHighUnit, isLowUnit]
  simp only [UInt32.isValidChar, Nat.isValidChar] at hvalid
  change c.toNat < 0xd800 ∨ 0xdfff < c.toNat ∧ c.toNat < 0x110000 at hvalid
  simp only [Bool.and_eq_false_iff, decide_eq_false_iff_not]
  omega

/-- Characters are units of their own, so no two of them are taken for a pair. -/
theorem joinUnits_map_toNat (cs : List Char) : joinUnits (cs.map Char.toNat) = cs := by
  induction cs with
  | nil => rfl
  | cons c cs ih =>
      obtain ⟨hhigh, hlow⟩ := not_surrogate c
      cases cs with
      | nil => simp [joinUnits, hhigh, hlow]
      | cons d cs =>
          rw [List.map_cons, List.map_cons] at *
          rw [joinUnits, hhigh, hlow, ih]
          simp

theorem readString_quote (s : String) (rest : List Char) :
    readString (s.toList.flatMap escapedChar ++ '"' :: rest) = some (s.toList, rest) := by
  rw [readString, readUnits_flatMap, Option.map_some]
  simp only [joinUnits_map_toNat]

theorem toList_quote (s : String) :
    (quote s).toList = '"' :: (s.toList.flatMap escapedChar ++ ['"']) := by
  rw [quote, String.toList_ofList]
  rfl

/-! ## Values -/

theorem skipSpace_cons {c : Char} (hc : isSpace c = false) (cs : List Char) :
    skipSpace (c :: cs) = c :: cs :=
  List.dropWhile_cons_of_neg (Bool.eq_false_iff.mp hc)

theorem readKey_quote (key : String) (rest : List Char) :
    readKey ((quote key).toList ++ ':' :: rest) = some (key, rest) := by
  rw [toList_quote, List.cons_append, List.append_assoc, readKey, skipSpace_cons (by decide)]
  simp only [List.singleton_append, readString_quote]
  rw [skipSpace_cons (by decide)]
  change some (String.ofList key.toList, rest) = _
  rw [String.ofList_toList]

theorem readValue_quote (fuel depth : Nat) (s : String) (rest : List Char) :
    readValue (fuel + 1) depth ((quote s).toList ++ rest) = some (.str s, rest) := by
  rw [toList_quote, List.cons_append, List.append_assoc, readValue.eq_def]
  simp only [skipSpace_cons (c := '"') (by decide), List.singleton_append]
  change (readString (s.toList.flatMap escapedChar ++ '"' :: rest)).map _ = _
  rw [readString_quote, Option.map_some]
  simp only [String.ofList_toList]

/-- How the text of a value begins: no blank, and no bracket that closes. -/
theorem compact_head {depth : Nat} {j : Json} (hj : Textual depth j) :
    ∃ c cs, j.compact.toList = c :: cs ∧ isSpace c = false ∧ c ≠ ']' := by
  cases j with
  | str s => exact ⟨'"', _, toList_quote s, by decide, by decide⟩
  | arr items => exact ⟨'[', _, by simp [compact]; rfl, by decide, by decide⟩
  | obj members => exact ⟨'\x7b', _, by simp [compact]; rfl, by decide, by decide⟩
  | _ => cases depth <;> exact hj.elim

theorem compactItems_eq_map (items : List Json) : compactItems items = items.map compact := by
  induction items with
  | nil => rfl
  | cons j js ih => rw [compactItems, ih, List.map_cons]

def memberText (m : String × Json) : List Char := (quote m.1).toList ++ ':' :: m.2.compact.toList

theorem compactMembers_eq_map (members : List (String × Json)) :
    (compactMembers members).map String.toList = members.map memberText := by
  induction members with
  | nil => rfl
  | cons m ms ih =>
      rw [compactMembers, List.map_cons, ih, List.map_cons, memberText]
      simp

theorem toList_compact_arr (items : List Json) :
    (Json.arr items).compact.toList =
      '[' :: ([','].intercalate (items.map fun j => j.compact.toList) ++ [']']) := by
  rw [compact, compactItems_eq_map]
  simp [Function.comp_def]

theorem toList_compact_obj (members : List (String × Json)) :
    (Json.obj members).compact.toList =
      '\x7b' :: ([','].intercalate (members.map memberText) ++ ['\x7d']) := by
  rw [compact]
  simp [compactMembers_eq_map]

/-- Reading one value off its text with enough fuel for the length of the text. -/
def ReadsBack (depth : Nat) (j : Json) : Prop :=
  ∀ fuel rest, 2 * j.compact.toList.length ≤ fuel →
    readValue fuel depth (j.compact.toList ++ rest) = some (j, rest)

theorem readItems_intercalate {depth : Nat} {items : List Json} (hne : items ≠ [])
    (hitems : ∀ j ∈ items, ReadsBack depth j) {fuel : Nat} {rest : List Char}
    (hfuel : 2 * ([','].intercalate (items.map fun j => j.compact.toList)).length + 1 ≤ fuel) :
    readItems fuel depth ([','].intercalate (items.map fun j => j.compact.toList) ++ ']' :: rest) =
      some (items, rest) := by
  induction items generalizing fuel with
  | nil => exact absurd rfl hne
  | cons j items ih =>
      obtain ⟨hhead, htail⟩ := List.forall_mem_cons.mp hitems
      obtain ⟨fuel, rfl⟩ := Nat.exists_eq_add_one_of_ne_zero (Nat.ne_of_gt (Nat.lt_of_lt_of_le
        (Nat.succ_pos _) hfuel))
      rw [List.map_cons] at hfuel ⊢
      by_cases hempty : items = []
      · subst hempty
        rw [List.map_nil, List.intercalate_singleton] at hfuel ⊢
        rw [readItems, hhead fuel _ (by omega)]
        simp only [skipSpace_cons (c := ']') (by decide)]
      · rw [List.intercalate_cons_of_ne_nil (by simpa using hempty)] at hfuel ⊢
        simp only [List.length_append, List.length_singleton] at hfuel
        rw [List.append_assoc, List.append_assoc, readItems, hhead fuel _ (by omega)]
        simp only [List.singleton_append, skipSpace_cons (c := ',') (by decide)]
        rw [ih hempty htail (by omega)]
        rfl

theorem readMembers_intercalate {depth : Nat} {members : List (String × Json)} (hne : members ≠ [])
    (hmembers : ∀ m ∈ members, ReadsBack depth m.2) {fuel : Nat} {rest : List Char}
    (hfuel : 2 * ([','].intercalate (members.map memberText)).length + 1 ≤ fuel) :
    readMembers fuel depth ([','].intercalate (members.map memberText) ++ '\x7d' :: rest) =
      some (members, rest) := by
  induction members generalizing fuel with
  | nil => exact absurd rfl hne
  | cons m members ih =>
      obtain ⟨hhead, htail⟩ := List.forall_mem_cons.mp hmembers
      obtain ⟨fuel, rfl⟩ := Nat.exists_eq_add_one_of_ne_zero (Nat.ne_of_gt (Nat.lt_of_lt_of_le
        (Nat.succ_pos _) hfuel))
      rw [List.map_cons] at hfuel ⊢
      by_cases hempty : members = []
      · subst hempty
        rw [List.map_nil, List.intercalate_singleton] at hfuel ⊢
        simp only [memberText, List.length_append, List.length_cons] at hfuel
        rw [memberText, List.append_assoc, List.cons_append, readMembers, readKey_quote]
        simp only []
        rw [hhead fuel _ (by omega)]
        simp only [skipSpace_cons (c := '\x7d') (by decide)]
      · rw [List.intercalate_cons_of_ne_nil (by simpa using hempty)] at hfuel ⊢
        simp only [memberText, List.length_append, List.length_cons, List.length_nil] at hfuel
        rw [List.append_assoc, List.append_assoc, memberText, List.append_assoc, List.cons_append,
          readMembers, readKey_quote]
        simp only []
        rw [hhead fuel _ (by omega)]
        simp only [List.singleton_append, skipSpace_cons (c := ',') (by decide)]
        rw [ih hempty htail (by omega)]
        rfl

theorem intercalate_head (ws : List (List Char)) (hne : ws ≠ []) {c : Char} (rest : List Char)
    (hhead : ∀ w ∈ ws, ∃ d cs, w = d :: cs ∧ isSpace d = false ∧ d ≠ c) :
    ∃ d cs, [','].intercalate ws ++ rest = d :: cs ∧ isSpace d = false ∧ d ≠ c := by
  obtain ⟨w, ws, rfl⟩ := List.exists_cons_of_ne_nil hne
  obtain ⟨d, cs, rfl, hd⟩ := hhead w List.mem_cons_self
  by_cases hempty : ws = []
  · subst hempty
    exact ⟨d, cs ++ rest, by rw [List.intercalate_singleton]; rfl, hd⟩
  · refine ⟨d, cs ++ [','] ++ [','].intercalate ws ++ rest, ?_, hd⟩
    rw [List.intercalate_cons_of_ne_nil hempty]
    rfl

/-- A list that is not empty is read item by item. -/
theorem readValue_arr {fuel depth : Nat} {cs : List Char} (h : ∀ rest, skipSpace cs ≠ ']' :: rest) :
    readValue (fuel + 1) (depth + 1) ('[' :: cs) =
      (readItems fuel depth cs).map fun (items, rest) => (.arr items, rest) := by
  rw [readValue.eq_def]
  simp only [skipSpace_cons (c := '[') (by decide)]

/-- An object that is not empty is read member by member. -/
theorem readValue_obj {fuel depth : Nat} {cs : List Char}
    (h : ∀ rest, skipSpace cs ≠ '\x7d' :: rest) :
    readValue (fuel + 1) (depth + 1) ('\x7b' :: cs) =
      (readMembers fuel depth cs).map fun (members, rest) => (.obj members, rest) := by
  rw [readValue.eq_def]
  simp only [skipSpace_cons (c := '\x7b') (by decide)]

theorem readsBack_str (depth : Nat) (s : String) : ReadsBack depth (.str s) := by
  intro fuel rest hfuel
  have hlength : 0 < (quote s).toList.length := by
    rw [toList_quote]
    exact Nat.succ_pos _
  obtain ⟨fuel, rfl⟩ := Nat.exists_eq_add_one_of_ne_zero (n := fuel) (by
    rw [compact] at hfuel
    omega)
  exact readValue_quote fuel depth s rest

theorem readsBack_arr {depth : Nat} {items : List Json} (htextual : ∀ j ∈ items, Textual depth j)
    (hitems : ∀ j ∈ items, ReadsBack depth j) : ReadsBack (depth + 1) (.arr items) := by
  intro fuel rest hfuel
  rw [toList_compact_arr] at hfuel ⊢
  simp only [List.length_cons, List.length_append, List.length_nil] at hfuel
  obtain ⟨fuel, rfl⟩ := Nat.exists_eq_add_one_of_ne_zero (n := fuel) (by omega)
  rw [List.cons_append, List.append_assoc, List.singleton_append]
  by_cases hempty : items = []
  · subst hempty
    rw [readValue.eq_def]
    simp only [skipSpace_cons (c := '[') (by decide), List.map_nil, List.intercalate_nil,
      List.nil_append, skipSpace_cons (c := ']') (by decide)]
  · have hopen : ∀ after, skipSpace ([','].intercalate (items.map fun j => j.compact.toList) ++
        ']' :: rest) ≠ ']' :: after := by
      obtain ⟨d, cs, hcs, hspace, hd⟩ := intercalate_head
        (items.map fun j => j.compact.toList) (by simpa using hempty) (']' :: rest)
        (List.forall_mem_map.mpr fun j hj => compact_head (htextual j hj))
      rw [hcs, skipSpace_cons hspace]
      rintro after ⟨⟩
      exact hd rfl
    rw [readValue_arr hopen, readItems_intercalate hempty hitems (by omega), Option.map_some]

theorem readsBack_obj {depth : Nat} {members : List (String × Json)}
    (hmembers : ∀ m ∈ members, ReadsBack depth m.2) : ReadsBack (depth + 1) (.obj members) := by
  intro fuel rest hfuel
  rw [toList_compact_obj] at hfuel ⊢
  simp only [List.length_cons, List.length_append, List.length_nil] at hfuel
  obtain ⟨fuel, rfl⟩ := Nat.exists_eq_add_one_of_ne_zero (n := fuel) (by omega)
  rw [List.cons_append, List.append_assoc, List.singleton_append]
  by_cases hempty : members = []
  · subst hempty
    rw [readValue.eq_def]
    simp only [skipSpace_cons (c := '\x7b') (by decide), List.map_nil, List.intercalate_nil,
      List.nil_append, skipSpace_cons (c := '\x7d') (by decide)]
  · have hopen : ∀ after, skipSpace ([','].intercalate (members.map memberText) ++
        '\x7d' :: rest) ≠ '\x7d' :: after := by
      obtain ⟨d, cs, hcs, hspace, hd⟩ := intercalate_head (members.map memberText)
        (by simpa using hempty) (c := '\x7d') ('\x7d' :: rest) (List.forall_mem_map.mpr fun m _ =>
          ⟨'"', _, by rw [memberText, toList_quote]; rfl, by decide, by decide⟩)
      rw [hcs, skipSpace_cons hspace]
      rintro after ⟨⟩
      exact hd rfl
    rw [readValue_obj hopen, readMembers_intercalate hempty hmembers (by omega), Option.map_some]

/-- The compact text of a value is read back, whatever follows it. -/
theorem readsBack_of_textual {depth : Nat} {j : Json} (hj : Textual depth j) : ReadsBack depth j := by
  induction depth generalizing j with
  | zero =>
      cases j with
      | str s => exact readsBack_str 0 s
      | _ => exact hj.elim
  | succ depth ih =>
      cases j with
      | str s => exact readsBack_str _ s
      | arr items => exact readsBack_arr hj fun j hmem => ih (hj j hmem)
      | obj members => exact readsBack_obj fun m hmem => ih (hj m hmem)
      | _ => exact hj.elim

theorem parse?_compact {j : Json} (hj : Textual maxDepth j) : parse? j.compact = some j := by
  have hread := readsBack_of_textual hj (2 * j.compact.length + 2) [] (by
    rw [String.length_toList]
    omega)
  rw [List.append_nil] at hread
  rw [parse?, hread]
  rfl

end OverloadDocs.Json
