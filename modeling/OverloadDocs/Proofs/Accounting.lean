import Mathlib.Data.List.Sigma
import OverloadDocs.Proofs.Building

/-!
What a build makes of the declarations of a file. Each declaration that is a signature either stands for its
overload, or lends its comment to a definition, or is refused; nothing is lost and nothing is counted twice. The
first definition of an overload stands for it, and its first declaration where there is no definition.
-/

namespace OverloadDocs

theorem Index.unanchored_anchored (supply : Anchors) (s : Signature) (doc : Documentation) :
    Documented.unanchored ⟨(anchored supply s).1, doc⟩ = ⟨{ s with anchor := "" }, doc⟩ := rfl

namespace FileBuild

/-! ## Reading -/

/-- The declaration that a statement of a file is, if it is a signature. -/
def declared? (file : String) (raw : Source.Declaration) : Option ParsedDeclaration :=
  (Signature.parse raw.text 0).toOption.map fun s =>
    ⟨raw, { s with source := { file := file, line := raw.line, endLine := raw.endLine } }⟩

/-- The error of a statement of a file, if it is no signature. -/
def syntaxError? (file : String) (raw : Source.Declaration) : Option SyntaxError :=
  match Signature.parse raw.text 0 with
  | .ok _ => none
  | .error e => some { e with source := { file := file, line := raw.line } }

end FileBuild

/-- A declaration without its position among those that were read before it. -/
def ParsedDeclaration.unnumbered (d : ParsedDeclaration) : ParsedDeclaration :=
  { d with signature := { d.signature with order := 0 } }

theorem Signature.parse_order (text : String) (order : Int) :
    Signature.parse text order = (Signature.parse text 0).map fun s => { s with order := order } := by
  rw [Signature.parse, Signature.parse]
  cases Grammar.parseWith Grammar.wholeSignature text <;> rfl

namespace FileBuild

/-- The position in the file does not count for what is read. -/
theorem parseAll_eq (reader : DeclarationReader) (raws : List Source.Declaration) :
    (parseAll reader raws).1.map (·.unnumbered) = raws.filterMap (declared? reader.file) ∧
      (parseAll reader raws).2 = raws.filterMap (syntaxError? reader.file) := by
  induction raws generalizing reader with
  | nil => exact ⟨rfl, rfl⟩
  | cons raw raws ih =>
      rw [parseAll, DeclarationReader.read, Signature.parse_order, List.filterMap_cons, List.filterMap_cons]
      cases hparse : Signature.parse raw.text 0 with
      | error e =>
          obtain ⟨hread, herrors⟩ := ih reader
          have hnone : declared? reader.file raw = none := by rw [declared?, hparse]; rfl
          have hsome : syntaxError? reader.file raw =
              some { e with source := { file := reader.file, line := raw.line } } := by
            rw [syntaxError?, hparse]
          rw [hnone, hsome]
          exact ⟨hread, congrArg _ herrors⟩
      | ok s =>
          obtain ⟨hread, herrors⟩ := ih { reader with order := reader.order + 1 }
          have horder := (Signature.parse_eq_ok_iff.mp hparse).2.1
          have hsome : declared? reader.file raw = some (ParsedDeclaration.unnumbered
              ⟨raw, { s with source := { file := reader.file, line := raw.line, endLine := raw.endLine } }⟩) := by
            rw [declared?, hparse, ParsedDeclaration.unnumbered, ← horder]
            rfl
          have hnone : syntaxError? reader.file raw = none := by rw [syntaxError?, hparse]
          rw [hnone, hsome]
          exact ⟨congrArg _ hread, herrors⟩

/-! ## Positions -/

variable {ds : List ParsedDeclaration}

/-- Whether a declaration defines an overload. -/
def Defines (key : String) (d : ParsedDeclaration) : Bool := !d.raw.forward && d.signature.key = key

/-- Whether a declaration is of an overload. -/
def Declares (key : String) (d : ParsedDeclaration) : Bool := d.signature.key = key

/-- The position of the declaration that stands for an overload: of its first definition, or else of its first
declaration. -/
def position? (ds : List ParsedDeclaration) (key : String) : Option Nat :=
  (ds.findIdx? (Defines key)).or (ds.findIdx? (Declares key))

/-- The declaration at a position stands for its overload. -/
def Stands (ds : List ParsedDeclaration) (p : ParsedDeclaration × Nat) : Prop :=
  position? ds p.1.signature.key = some p.2

instance (ds : List ParsedDeclaration) (p : ParsedDeclaration × Nat) : Decidable (Stands ds p) :=
  inferInstanceAs (Decidable (_ = _))

/-- The declaration is forward and its overload has a definition. -/
def GivesWay (ds : List ParsedDeclaration) (d : ParsedDeclaration) : Bool :=
  d.raw.forward && defines ds d.signature.key

/-- A definition stands where there is one. -/
theorem position?_of_defines {key : String} (h : defines ds key = true) :
    ∃ i, ∃ hi : i < ds.length, position? ds key = some i ∧ Defines key ds[i] ∧
      ∀ j (hj : j < ds.length), Defines key ds[j] → i ≤ j := by
  have hany : ds.any (Defines key) = true := h
  obtain ⟨i, hi⟩ := Option.isSome_iff_exists.mp (List.findIdx?_isSome.trans hany)
  obtain ⟨hlt, hat, hbefore⟩ := List.findIdx?_eq_some_iff_getElem.mp hi
  refine ⟨i, hlt, ?_, hat, fun j hj hdefines => ?_⟩
  · rw [position?, hi, Option.some_or]
  · by_contra hnot
    exact hbefore j (Nat.lt_of_not_le hnot) hdefines

/-- Without a definition the first declaration stands. -/
theorem position?_of_not_defines {key : String} (h : defines ds key = false) {n : Nat} (hn : n < ds.length)
    (hkey : ds[n].signature.key = key) :
    ∃ i, ∃ hi : i < ds.length, position? ds key = some i ∧ ds[i].signature.key = key ∧ i ≤ n := by
  have hany : ds.any (Defines key) = false := h
  have hnone : ds.findIdx? (Defines key) = none :=
    List.findIdx?_eq_none_iff.mpr fun d hd => by simpa using List.any_eq_false.mp hany d hd
  have hdeclares : ds.any (Declares key) = true :=
    List.any_eq_true.mpr ⟨ds[n], List.getElem_mem hn, decide_eq_true hkey⟩
  obtain ⟨i, hi⟩ := Option.isSome_iff_exists.mp (List.findIdx?_isSome.trans hdeclares)
  obtain ⟨hlt, hat, hbefore⟩ := List.findIdx?_eq_some_iff_getElem.mp hi
  refine ⟨i, hlt, ?_, of_decide_eq_true hat, ?_⟩
  · rw [position?, hnone, Option.none_or, hi]
  · by_contra hnot
    exact hbefore n (Nat.lt_of_not_le hnot) (decide_eq_true hkey)

/-- Every overload that is declared has a declaration that stands for it. -/
theorem exists_position? {n : Nat} (hn : n < ds.length) :
    ∃ i, ∃ hi : i < ds.length, position? ds ds[n].signature.key = some i ∧
      ds[i].signature.key = ds[n].signature.key ∧ (GivesWay ds ds[n] = false → i ≤ n) := by
  cases hdefines : defines ds ds[n].signature.key with
  | true =>
      obtain ⟨i, hi, hposition, hat, hfirst⟩ := position?_of_defines hdefines
      have hkey : ds[i].signature.key = ds[n].signature.key := of_decide_eq_true (Bool.and_eq_true_iff.mp hat).2
      refine ⟨i, hi, hposition, hkey, fun hstays => hfirst n hn ?_⟩
      rw [GivesWay, hdefines, Bool.and_true] at hstays
      simp [Defines, hstays]
  | false =>
      obtain ⟨i, hi, hposition, hkey, hle⟩ := position?_of_not_defines hdefines hn rfl
      exact ⟨i, hi, hposition, hkey, fun _ => hle⟩

/-- What gives way to a definition does not stand. -/
theorem not_stands_of_givesWay {n : Nat} (hn : n < ds.length) (h : GivesWay ds ds[n] = true) :
    ¬ Stands ds (ds[n], n) := by
  intro hstands
  obtain ⟨hforward, hdefines⟩ := Bool.and_eq_true_iff.mp h
  obtain ⟨i, hi, hposition, hat, -⟩ := position?_of_defines hdefines
  obtain rfl : i = n := Option.some.inj (hposition.symm.trans hstands)
  simp [Defines, hforward] at hat

/-- The declarations before a position that stand for their overloads. -/
def standingBefore (ds : List ParsedDeclaration) (n : Nat) : List (ParsedDeclaration × Nat) :=
  (ds.zipIdx.take n).filter (Stands ds ·)

/-- The declarations that stand for their overloads, in source order. -/
def standing (ds : List ParsedDeclaration) : List (ParsedDeclaration × Nat) := ds.zipIdx.filter (Stands ds ·)

/-- The declaration at a position neither stands for its overload nor gives way to a definition. -/
def Repeats (ds : List ParsedDeclaration) (p : ParsedDeclaration × Nat) : Prop :=
  ¬ Stands ds p ∧ GivesWay ds p.1 = false

instance (ds : List ParsedDeclaration) (p : ParsedDeclaration × Nat) : Decidable (Repeats ds p) :=
  inferInstanceAs (Decidable (_ ∧ _))

/-- The declarations before a position that repeat an overload. -/
def repeatsBefore (ds : List ParsedDeclaration) (n : Nat) : List (ParsedDeclaration × Nat) :=
  (ds.zipIdx.take n).filter (Repeats ds ·)

/-- The declarations that repeat an overload, in source order: every definition but the first, and every forward
declaration but the first where there is no definition. -/
def repeats (ds : List ParsedDeclaration) : List (ParsedDeclaration × Nat) := ds.zipIdx.filter (Repeats ds ·)

theorem filter_take_zipIdx_succ (among : ParsedDeclaration × Nat → Prop) [DecidablePred among] {n : Nat}
    (hn : n < ds.length) :
    (ds.zipIdx.take (n + 1)).filter (among ·) =
      if among (ds[n], n) then (ds.zipIdx.take n).filter (among ·) ++ [(ds[n], n)]
      else (ds.zipIdx.take n).filter (among ·) := by
  rw [List.take_succ_eq_append_getElem (by rwa [List.length_zipIdx]), List.getElem_zipIdx, Nat.zero_add,
    List.filter_append]
  simp only [List.filter_cons, List.filter_nil, decide_eq_true_eq]
  split
  · rfl
  · exact List.append_nil _

theorem standingBefore_succ {n : Nat} (hn : n < ds.length) :
    standingBefore ds (n + 1) =
      if Stands ds (ds[n], n) then standingBefore ds n ++ [(ds[n], n)] else standingBefore ds n :=
  filter_take_zipIdx_succ (Stands ds) hn

theorem repeatsBefore_succ {n : Nat} (hn : n < ds.length) :
    repeatsBefore ds (n + 1) =
      if Repeats ds (ds[n], n) then repeatsBefore ds n ++ [(ds[n], n)] else repeatsBefore ds n :=
  filter_take_zipIdx_succ (Repeats ds) hn

theorem standingBefore_length (ds : List ParsedDeclaration) : standingBefore ds ds.length = standing ds := by
  rw [standingBefore, List.take_of_length_le (Nat.le_of_eq List.length_zipIdx), standing]

theorem repeatsBefore_length (ds : List ParsedDeclaration) : repeatsBefore ds ds.length = repeats ds := by
  rw [repeatsBefore, List.take_of_length_le (Nat.le_of_eq List.length_zipIdx), repeats]

theorem mem_standingBefore {n : Nat} {p : ParsedDeclaration × Nat} :
    p ∈ standingBefore ds n ↔ p.2 < n ∧ ds[p.2]? = some p.1 ∧ Stands ds p := by
  rw [standingBefore, List.mem_filter, decide_eq_true_eq, List.mem_take_iff_getElem]
  constructor
  · rintro ⟨⟨i, hi, rfl⟩, hstands⟩
    rw [List.getElem_zipIdx] at hstands ⊢
    simp only [List.length_zipIdx] at hi
    have hlt : i < ds.length := by omega
    refine ⟨by omega, ?_, hstands⟩
    simp [hlt]
  · rintro ⟨hlt, hat, hstands⟩
    obtain ⟨hlength, hat⟩ := List.getElem?_eq_some_iff.mp hat
    refine ⟨⟨p.2, by simp only [List.length_zipIdx]; omega, ?_⟩, hstands⟩
    rw [List.getElem_zipIdx, hat, Nat.zero_add]

/-- A declaration that does not give way comes too late just when one before it stands. -/
theorem key_mem_standingBefore {n : Nat} (hn : n < ds.length) (hstays : GivesWay ds ds[n] = false) :
    ds[n].signature.key ∈ (standingBefore ds n).map (·.1.signature.key) ↔ ¬ Stands ds (ds[n], n) := by
  constructor
  · intro hmem hstands
    obtain ⟨p, hp, hkey⟩ := List.mem_map.mp hmem
    obtain ⟨hlt, -, hstands'⟩ := mem_standingBefore.mp hp
    rw [Stands, hkey] at hstands'
    have heq : p.2 = n := Option.some.inj (hstands'.symm.trans hstands)
    omega
  · intro hnot
    obtain ⟨i, hi, hposition, hkey, hle⟩ := exists_position? hn
    have hne : i ≠ n := by
      rintro rfl
      exact hnot hposition
    have hle := hle hstays
    refine List.mem_map.mpr ⟨(ds[i], i), mem_standingBefore.mpr ⟨by omega, List.getElem?_eq_getElem hi, ?_⟩, hkey⟩
    rw [Stands, hkey]
    exact hposition

/-! ## Comments -/

/-- The first comment of the forward declarations of an overload before a position. -/
def lent? (ds : List ParsedDeclaration) (n : Nat) (key : String) : Option String :=
  ((ds.take n).find? fun d => d.raw.forward && d.signature.key = key && d.raw.comment ≠ "").map (·.raw.comment)

/-- The comment that documents what a declaration declares: its own, or else, where the overload has a definition,
the first one of the forward declarations before it. -/
def commentFor (ds : List ParsedDeclaration) (p : ParsedDeclaration × Nat) : String :=
  if p.1.raw.comment ≠ "" then p.1.raw.comment
  else if defines ds p.1.signature.key then (lent? ds p.2 p.1.signature.key).getD "" else ""

theorem lent?_succ {n : Nat} (hn : n < ds.length) (key : String) :
    lent? ds (n + 1) key = (lent? ds n key).or
      (if ds[n].raw.forward && ds[n].signature.key = key && ds[n].raw.comment ≠ "" then some ds[n].raw.comment
        else none) := by
  rw [lent?, List.take_succ_eq_append_getElem hn, List.find?_append, Option.map_or, lent?, List.find?_singleton]
  split <;> rfl

/-! ## Taking one declaration in -/

theorem Progress.add_of_givesWay {p : Progress} {d : ParsedDeclaration} (h : GivesWay ds d = true) :
    p.add ds d =
      if (p.forwardComments.find? (·.1 = d.signature.key)).isNone ∧ d.raw.comment ≠ "" then
        { p with forwardComments := p.forwardComments ++ [(d.signature.key, d.raw.comment)] }
      else p := by
  rw [GivesWay] at h
  rw [Progress.add]
  dsimp only
  rw [h, if_pos rfl]

/-- The comment that a build takes for a declaration. -/
def Progress.commentOf (p : Progress) (d : ParsedDeclaration) : String :=
  if d.raw.comment = "" then ((p.forwardComments.find? (·.1 = d.signature.key)).map (·.2)).getD "" else d.raw.comment

theorem Progress.add_of_refused {p : Progress} {d : ParsedDeclaration} {e : RegisterError}
    (h : GivesWay ds d = false)
    (hregister : p.build.index.register p.supply (some { d.signature with order := p.build.index.size })
      (Comment.normalize (p.commentOf d) (some d.signature)).1 = .error e) :
    p.add ds d = { p with build := { p.build with result :=
      { p.build.result with errors := p.build.result.errors ++ [.refused e] } } } := by
  rw [GivesWay] at h
  dsimp only [Progress.commentOf] at hregister
  rw [Progress.add]
  dsimp only
  rw [h, if_neg Bool.false_ne_true, hregister]

theorem Progress.add_of_registered {p : Progress} {d : ParsedDeclaration} {idx : Index} {supply : Anchors}
    (h : GivesWay ds d = false)
    (hregister : p.build.index.register p.supply (some { d.signature with order := p.build.index.size })
      (Comment.normalize (p.commentOf d) (some d.signature)).1 = .ok (idx, supply)) :
    p.add ds d = { p with
      supply := supply
      build := { p.build with
        index := idx
        result := { p.build.result with
          functions := idx.entries
          warnings := p.build.result.warnings ++
            (Comment.normalize (p.commentOf d) (some d.signature)).2.map
              (BuildWarning.comment p.build.file d.raw.line) } } } := by
  rw [GivesWay] at h
  dsimp only [Progress.commentOf] at hregister ⊢
  rw [Progress.add]
  dsimp only
  rw [h, if_neg Bool.false_ne_true, hregister]

/-- What stands for an overload in the build, but for its anchor: the declaration, numbered by its place, and what
its comment says. -/
def documentedAs (ds : List ParsedDeclaration) (place : Nat) (p : ParsedDeclaration × Nat) : Documented :=
  ⟨{ p.1.signature with order := place, anchor := "" },
    (Comment.normalize (commentFor ds p) (some p.1.signature)).1⟩

theorem map_key_documentedAs (ps : List (ParsedDeclaration × Nat)) :
    (ps.mapIdx (documentedAs ds)).map (·.signature.key) = ps.map (·.1.signature.key) := by
  conv_rhs => rw [← List.zipIdx_map_fst 0 ps]
  rw [List.mapIdx_eq_zipIdx_map, List.map_map, List.map_map]
  rfl

/-- The warnings about the comment of a declaration that stands. -/
def remarks (file : String) (ds : List ParsedDeclaration) (p : ParsedDeclaration × Nat) : List BuildWarning :=
  (Comment.normalize (commentFor ds p) (some p.1.signature)).2.map (.comment file p.1.raw.line)

/-- The refusal of a declaration: it names the function that has the overload, and the refused signature with the
number that it would have had. -/
def Refuses (ds : List ParsedDeclaration) (idx : Index) (p : ParsedDeclaration × Nat) (err : RegisterError) : Prop :=
  ∃ e ∈ idx.entries, e.signature.key = p.1.signature.key ∧
    err = .duplicate e.signature { p.1.signature with order := (standingBefore ds p.2).length }

theorem Refuses.mono {idx idx' : Index} {p : ParsedDeclaration × Nat} {err : RegisterError}
    (h : Refuses ds idx p err) (hentries : idx.entries ⊆ idx'.entries) : Refuses ds idx' p err := by
  obtain ⟨e, he, hkey, herr⟩ := h
  exact ⟨e, hentries he, hkey, herr⟩

/-- A build that has taken in the declarations before a position. -/
structure Upto (ds : List ParsedDeclaration) (n : Nat) (start p : Progress) : Prop where
  file : p.build.file = start.build.file
  frozen : p.build.index.frozen = false
  entries : p.build.index.entries.map Documented.unanchored = (standingBefore ds n).mapIdx (documentedAs ds)
  functions : p.build.result.functions = p.build.index.entries
  anchors : ∀ e ∈ p.build.index.entries, e.signature.anchor ≠ ""
  comments : ∀ key, (p.forwardComments.find? (·.1 = key)).map (·.2) =
    if defines ds key then lent? ds n key else none
  errors : ∃ refusals, p.build.result.errors = start.build.result.errors ++ refusals.map .refused ∧
    List.Forall₂ (Refuses ds p.build.index) (repeatsBefore ds n) refusals
  warnings : p.build.result.warnings =
    start.build.result.warnings ++ (standingBefore ds n).flatMap (remarks start.build.file ds)

namespace Upto

variable {n : Nat} {start p : Progress}

theorem size (h : Upto ds n start p) : p.build.index.size = (standingBefore ds n).length := by
  have := congrArg List.length h.entries
  rwa [List.length_map, List.length_mapIdx] at this

theorem keys (h : Upto ds n start p) :
    p.build.index.entries.map (·.signature.key) = (standingBefore ds n).map (·.1.signature.key) := by
  have := congrArg (List.map (·.signature.key)) h.entries
  rwa [List.map_map, map_key_documentedAs] at this

theorem commentOf_eq (h : Upto ds n start p) (hn : n < ds.length) :
    p.commentOf ds[n] = commentFor ds (ds[n], n) := by
  rw [Progress.commentOf, h.comments, commentFor, ite_not]
  split
  · split <;> rfl
  · rfl

/-- A declaration that does not give way lends no comment to a definition. -/
theorem comments_of_stays (h : Upto ds n start p) (hn : n < ds.length) (hstays : GivesWay ds ds[n] = false)
    (key : String) :
    (p.forwardComments.find? (·.1 = key)).map (·.2) = if defines ds key then lent? ds (n + 1) key else none := by
  rw [h.comments, lent?_succ hn]
  split
  · rename_i hdefines
    rw [if_neg, Option.or_none]
    intro hlends
    simp only [Bool.and_eq_true, decide_eq_true_eq] at hlends
    obtain ⟨⟨hforward, rfl⟩, -⟩ := hlends
    rw [GivesWay, hforward, hdefines] at hstays
    exact absurd hstays (by decide)
  · rfl

/-- The comment of what gives way is lent if it is the first one for its overload. -/
theorem comments_of_givesWay (h : Upto ds n start p) (hn : n < ds.length) (hgives : GivesWay ds ds[n] = true)
    (key : String) :
    ((p.add ds ds[n]).forwardComments.find? (·.1 = key)).map (·.2) =
      if defines ds key then lent? ds (n + 1) key else none := by
  obtain ⟨hforward, hdefines⟩ := Bool.and_eq_true_iff.mp hgives
  have hcomments := h.comments ds[n].signature.key
  rw [if_pos hdefines] at hcomments
  rw [Progress.add_of_givesWay hgives, lent?_succ hn, hforward, Bool.true_and]
  by_cases hlends : (p.forwardComments.find? (·.1 = ds[n].signature.key)).isNone ∧ ds[n].raw.comment ≠ ""
  · rw [if_pos hlends, List.find?_append, Option.map_or, h.comments, List.find?_singleton]
    by_cases hkey : ds[n].signature.key = key
    · subst hkey
      simp only [hdefines, hlends.2, decide_true, ne_eq, not_false_eq_true, Bool.and_self, if_true, Option.map_some]
    · simp only [hkey, decide_false, Bool.false_and, Bool.false_eq_true, if_false, Option.map_none, Option.or_none]
  · rw [if_neg hlends, h.comments]
    split
    · split
      · -- another comment was lent before
        rename_i hmatches
        simp only [Bool.and_eq_true, decide_eq_true_eq] at hmatches
        obtain ⟨rfl, hcomment⟩ := hmatches
        obtain ⟨first, hfirst⟩ := Option.ne_none_iff_exists'.mp
          fun hnone => hlends ⟨Option.isNone_iff_eq_none.mpr hnone, hcomment⟩
        rw [hfirst, Option.map_some] at hcomments
        rw [← hcomments, Option.some_or]
      · rw [Option.or_none]
    · rfl

/-- What gives way adds nothing to the build but a comment that is lent. -/
theorem add_of_givesWay (h : Upto ds n start p) (hn : n < ds.length) (hgives : GivesWay ds ds[n] = true) :
    Upto ds (n + 1) start (p.add ds ds[n]) := by
  have hstanding : standingBefore ds (n + 1) = standingBefore ds n := by
    rw [standingBefore_succ hn, if_neg (not_stands_of_givesWay hn hgives)]
  have hrepeats : repeatsBefore ds (n + 1) = repeatsBefore ds n := by
    rw [repeatsBefore_succ hn, if_neg fun hrepeats => Bool.false_ne_true (hrepeats.2.symm.trans hgives)]
  have hbuild : (p.add ds ds[n]).build = p.build := by
    rw [Progress.add_of_givesWay hgives]
    split <;> rfl
  refine ⟨hbuild ▸ h.file, hbuild ▸ h.frozen, ?_, hbuild ▸ h.functions, hbuild ▸ h.anchors,
    h.comments_of_givesWay hn hgives, ?_, ?_⟩
  · rw [hbuild, hstanding, h.entries]
  · rw [hbuild, hrepeats]
    exact h.errors
  · rw [hbuild, hstanding, h.warnings]

/-- A declaration that neither gives way nor stands is refused. -/
theorem add_of_repeats (h : Upto ds n start p) (hn : n < ds.length) (hvalid : ds[n].signature.Valid)
    (hrepeats : Repeats ds (ds[n], n)) : Upto ds (n + 1) start (p.add ds ds[n]) := by
  obtain ⟨hnot, hstays⟩ := hrepeats
  let again : Signature := { ds[n].signature with order := p.build.index.size }
  have hagain : again.Valid := hvalid
  have hknown : again.key ∈ p.build.index.entries.map (·.signature.key) := by
    rw [h.keys]
    exact (key_mem_standingBefore hn hstays).mpr hnot
  obtain ⟨e, he, hkey, hrefused⟩ := Index.register_of_known h.frozen hagain hknown p.supply
    (Comment.normalize (p.commentOf ds[n]) (some ds[n].signature)).1
  have hadd : p.add ds ds[n] = { p with build := { p.build with result :=
      { p.build.result with errors := p.build.result.errors ++ [.refused (.duplicate e.signature again)] } } } :=
    Progress.add_of_refused hstays hrefused
  have hstanding : standingBefore ds (n + 1) = standingBefore ds n := by
    rw [standingBefore_succ hn, if_neg hnot]
  rw [hadd]
  refine ⟨h.file, h.frozen, ?_, h.functions, h.anchors, h.comments_of_stays hn hstays, ?_, ?_⟩
  · rw [hstanding, h.entries]
  · obtain ⟨refusals, herrors, hall⟩ := h.errors
    refine ⟨refusals ++ [.duplicate e.signature again], ?_, ?_⟩
    · rw [herrors, List.map_append, List.append_assoc]
      rfl
    · rw [repeatsBefore_succ hn, if_pos ⟨hnot, hstays⟩]
      refine List.rel_append hall (.cons ⟨e, he, hkey, ?_⟩ .nil)
      rw [← h.size]
  · rw [hstanding, h.warnings]

/-- A declaration that stands is registered behind the others. -/
theorem add_of_stands (h : Upto ds n start p) (hn : n < ds.length) (hvalid : ds[n].signature.Valid)
    (hstands : Stands ds (ds[n], n)) : Upto ds (n + 1) start (p.add ds ds[n]) := by
  have hstays : GivesWay ds ds[n] = false :=
    Bool.eq_false_iff.mpr fun hgives => not_stands_of_givesWay hn hgives hstands
  let s : Signature := { ds[n].signature with order := p.build.index.size }
  have hs : s.Valid := hvalid
  have hnew : s.key ∉ p.build.index.entries.map (·.signature.key) := by
    rw [h.keys]
    exact fun hmem => (key_mem_standingBefore hn hstays).mp hmem hstands
  let said := Comment.normalize (p.commentOf ds[n]) (some ds[n].signature)
  have hregister : p.build.index.register p.supply (some s) said.1 =
      .ok ({ p.build.index with entries := p.build.index.entries ++ [⟨(Index.anchored p.supply s).1, said.1⟩] },
        (Index.anchored p.supply s).2) :=
    Index.register_eq_ok.mpr ⟨h.frozen, hs, hnew, rfl, rfl⟩
  have hstanding : standingBefore ds (n + 1) = standingBefore ds n ++ [(ds[n], n)] := by
    rw [standingBefore_succ hn, if_pos hstands]
  have hrepeats : repeatsBefore ds (n + 1) = repeatsBefore ds n := by
    rw [repeatsBefore_succ hn, if_neg fun hrepeats => hrepeats.1 hstands]
  rw [Progress.add_of_registered hstays hregister]
  refine ⟨h.file, h.frozen, ?_, rfl, ?_, h.comments_of_stays hn hstays, ?_, ?_⟩
  · rw [hstanding, List.mapIdx_concat, ← h.size, ← h.entries, List.map_append, List.map_singleton,
      Index.unanchored_anchored, documentedAs, ← h.commentOf_eq hn]
  · exact List.forall_mem_append.mpr ⟨h.anchors, List.forall_mem_singleton.mpr (Index.anchored_ne _ _)⟩
  · obtain ⟨refusals, herrors, hall⟩ := h.errors
    refine ⟨refusals, herrors, ?_⟩
    rw [hrepeats]
    exact hall.imp fun _ _ hrefuses => hrefuses.mono (List.subset_append_left _ _)
  · rw [hstanding, List.flatMap_append, List.flatMap_singleton, ← List.append_assoc, ← h.warnings, remarks,
      ← h.commentOf_eq hn, ← h.file]

/-- Taking in the declaration at a position. -/
theorem add (h : Upto ds n start p) (hn : n < ds.length) (hvalid : ds[n].signature.Valid) :
    Upto ds (n + 1) start (p.add ds ds[n]) := by
  by_cases hgives : GivesWay ds ds[n] = true
  · exact h.add_of_givesWay hn hgives
  · by_cases hstands : Stands ds (ds[n], n)
    · exact h.add_of_stands hn hvalid hstands
    · exact h.add_of_repeats hn hvalid ⟨hstands, Bool.eq_false_iff.mpr hgives⟩

theorem foldl_take (file : String) (errors : List BuildError) (supply : Anchors)
    (hvalid : ∀ d ∈ ds, d.signature.Valid) (n : Nat) (hn : n ≤ ds.length) :
    let start : Progress := { build := { file := file, result := { errors := errors } }, supply := supply }
    Upto ds n start ((ds.take n).foldl (Progress.add ds) start) := by
  intro start
  induction n with
  | zero =>
      refine ⟨rfl, rfl, rfl, rfl, fun _ => nofun, fun key => ?_, ⟨[], (List.append_nil _).symm, .nil⟩, rfl⟩
      split <;> rfl
  | succ n ih =>
      rw [List.take_succ_eq_append_getElem hn, List.foldl_append]
      exact (ih (Nat.le_of_lt hn)).add hn (hvalid _ (List.getElem_mem hn))

end Upto

/-! ## Whole files -/

theorem mem_standing {p : ParsedDeclaration × Nat} :
    p ∈ standing ds ↔ ds[p.2]? = some p.1 ∧ Stands ds p := by
  rw [← standingBefore_length, mem_standingBefore]
  constructor
  · exact fun h => h.2
  · exact fun h => ⟨(List.getElem?_eq_some_iff.mp h.1).1, h⟩

/-- An overload has a declaration that stands for it just when it is declared. -/
theorem key_mem_standing {key : String} :
    key ∈ (standing ds).map (·.1.signature.key) ↔ key ∈ ds.map (·.signature.key) := by
  simp only [List.mem_map]
  constructor
  · rintro ⟨p, hp, rfl⟩
    exact ⟨p.1, List.mem_of_getElem? (mem_standing.mp hp).1, rfl⟩
  · rintro ⟨d, hd, rfl⟩
    obtain ⟨n, hn, rfl⟩ := List.mem_iff_getElem.mp hd
    obtain ⟨i, hi, hposition, hkey, -⟩ := exists_position? hn
    refine ⟨(ds[i], i), mem_standing.mpr ⟨List.getElem?_eq_getElem hi, ?_⟩, hkey⟩
    rw [Stands, hkey]
    exact hposition

/-- One declaration stands for each overload. -/
theorem nodup_keys_standing : ((standing ds).map (·.1.signature.key)).Nodup := by
  have hzip : ds.zipIdx.Nodup := List.Nodup.of_map Prod.snd (List.nodup_zipIdx_map_snd ds)
  refine List.Nodup.map_on (fun p hp q hq hkey => ?_) (hzip.filter _)
  obtain ⟨hp, hpstands⟩ := mem_standing.mp hp
  obtain ⟨hq, hqstands⟩ := mem_standing.mp hq
  rw [Stands, hkey] at hpstands
  have hposition : p.2 = q.2 := Option.some.inj (hpstands.symm.trans hqstands)
  rw [hposition] at hp
  exact Prod.ext (Option.some.inj (hp.symm.trans hq)) hposition

/-- What the build of a file makes of its statements, of which those that are signatures are the declarations. -/
structure Accounts (file : String) (raws : List Source.Declaration) (ds : List ParsedDeclaration)
    (build : FileBuild) : Prop where
  read : ds.map (·.unnumbered) = raws.filterMap (declared? file)
  once : (build.index.entries.map (·.signature.key)).Nodup
  all : ∀ key, key ∈ build.index.entries.map (·.signature.key) ↔ key ∈ ds.map (·.signature.key)
  entries : build.index.entries.map Documented.unanchored = (standing ds).mapIdx (documentedAs ds)
  anchors : ∀ e ∈ build.index.entries, e.signature.anchor ≠ ""
  functions : build.result.functions = build.index.entries
  errors : ∃ refusals, build.result.errors =
      (raws.filterMap (syntaxError? file)).map .malformed ++ refusals.map .refused ∧
    List.Forall₂ (Refuses ds build.index) (repeats ds) refusals
  warnings : build.result.warnings =
    if raws = [] then [.noSignatures file] else (standing ds).flatMap (remarks file ds)

/-- The build of a file accounts for every statement of it. -/
theorem accounts_ofSource (supply : Anchors) (file source : String) :
    let raws := Source.declarations source
    Accounts file raws (parseAll { file := file } raws).1 (ofSource supply file source).1 := by
  intro raws
  obtain ⟨hread, herrors⟩ := parseAll_eq { file := file } raws
  rw [ofSource]
  split
  · rename_i hnone
    have hraws : raws = [] := hnone
    rw [hraws]
    exact ⟨rfl, List.nodup_nil, fun _ => .rfl, rfl, fun _ ha => absurd ha List.not_mem_nil, rfl, ⟨[], rfl, .nil⟩, rfl⟩
  · rename_i hsome
    let read := parseAll { file := file } raws
    have hvalid : ∀ d ∈ read.1, d.signature.Valid := fun d hd => (declared_parseAll d hd).wellFormed.valid
    have hdone := Upto.foldl_take file (read.2.map .malformed) supply hvalid read.1.length
      (Nat.le_refl _)
    rw [List.take_length] at hdone
    have hkeys := hdone.keys
    have hentries := hdone.entries
    have hwarnings := hdone.warnings
    obtain ⟨refusals, hall, hrefusals⟩ := hdone.errors
    rw [standingBefore_length] at hkeys hentries hwarnings
    rw [repeatsBefore_length] at hrefusals
    refine ⟨hread, ?_, fun key => ?_, hentries, hdone.anchors, hdone.functions, ⟨refusals, ?_, hrefusals⟩, ?_⟩
    · exact hkeys ▸ nodup_keys_standing
    · exact hkeys ▸ key_mem_standing
    · have hmalformed := congrArg (List.map BuildError.malformed) herrors
      exact hall.trans (congrArg (· ++ refusals.map BuildError.refused) hmalformed)
    · rw [if_neg hsome]
      exact hwarnings

end FileBuild

end OverloadDocs
