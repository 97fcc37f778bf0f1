import OverloadDocs.Comment.Normalize
import OverloadDocs.Proofs.ResultTexts
import OverloadDocs.Proofs.StoredText

/-!
What becomes of the fields of a comment. Every line that opens a field is accounted for once: as the text of a
parameter or of the returned value, as a failure condition, as a field for a type, or by a warning. A parameter and
the returned value keep the first field that is for them. The positions of the texts belong to different names, so
that the texts can be shown by name.
-/

namespace OverloadDocs

open Text

/-! ## Texts by position -/

namespace PositionTexts

theorem get?_cons (e : Int × String) (m : PositionTexts) (j : Int) :
    get? (e :: m) j = if j = e.1 then some e.2 else get? m j := by
  rw [get?, List.find?_cons]
  by_cases h : j = e.1
  · simp [h]
  · simp [h, Ne.symm h, get?]

theorem get?_put (i j : Int) (text : String) (m : PositionTexts) :
    get? (put i text m) j = if j = i then some text else get? m j := by
  induction m with
  | nil => rw [put, get?_cons]
  | cons e m ih =>
    rw [put]
    split
    · rw [get?_cons]
    · split
      · rename_i heq
        rw [get?_cons, get?_cons, ← heq]
        split
        · rfl
        · rfl
      · rename_i hne
        rw [get?_cons, ih, get?_cons]
        split
        · rw [if_neg (by omega)]
        · rfl

theorem get?_eq_none {i : Int} {m : PositionTexts} : get? m i = none ↔ ∀ e ∈ m, e.1 ≠ i := by
  simp [get?]

theorem length_put {i : Int} (text : String) {m : PositionTexts} (hi : get? m i = none) :
    (put i text m).length = m.length + 1 :=
  (perm_put text (get?_eq_none.mp hi)).length_eq

end PositionTexts

/-- A position of a parameter that has a name and is the first to have it. -/
def IsFirstNamed (params : List Parameter) (i : Int) : Prop :=
  ∃ (n : Nat) (p : Parameter), i = n ∧ params[n]? = some p ∧ p.name ≠ "" ∧
    ∀ m < n, ∀ q, params[m]? = some q → q.name ≠ p.name

theorem IsFirstNamed.bounds {params : List Parameter} {i : Int} (h : IsFirstNamed params i) :
    0 ≤ i ∧ i < params.length := by
  obtain ⟨n, p, rfl, hp, -⟩ := h
  exact ⟨Int.natCast_nonneg n, Int.ofNat_lt.mpr (List.getElem?_eq_some_iff.mp hp).1⟩

theorem Signature.isFirstNamed_of_paramIndex? {s : Signature} {name : String} {n : Nat}
    (h : s.paramIndex? name = some n) : IsFirstNamed s.params n := by
  rw [paramIndex?] at h
  split at h
  · cases h
  · rename_i hname
    obtain ⟨hlt, hfound, hbefore⟩ := List.findIdx?_eq_some_iff_getElem.mp h
    have hp : s.params[n].name = name := of_decide_eq_true hfound
    refine ⟨n, s.params[n], rfl, List.getElem?_eq_getElem hlt, hp ▸ hname, fun m hm q hq => ?_⟩
    obtain ⟨hlt', rfl⟩ := List.getElem?_eq_some_iff.mp hq
    rw [hp]
    simpa using hbefore m hm

/-- The parameters of a signature, none without one. -/
def paramsOf (signature : Option Signature) : List Parameter := (signature.map (·.params)).getD []

/-- Texts at first positions of names are all shown, each under its own name. -/
theorem exists_namedTexts_of_isFirstNamed {params : List Parameter} {texts : PositionTexts} (hsorted : texts.Sorted)
    (hfirst : ∀ e ∈ texts, IsFirstNamed params e.1) :
    ∃ named, SearchResult.namedTexts params texts = .ok named ∧ (named.map (·.1)).Nodup ∧
      named.Perm (texts.filterMap (SearchResult.ofPosition? params)) ∧ named.length = texts.length := by
  have hnamed : ∀ e ∈ texts, ∃ (n : Nat) (p : Parameter), e.1 = n ∧ params[n]? = some p ∧
      (∀ m < n, ∀ q, params[m]? = some q → q.name ≠ p.name) ∧
      SearchResult.ofPosition? params e = some (p.name, e.2) := by
    intro e he
    obtain ⟨n, p, hn, hp, -, hbefore⟩ := hfirst e he
    exact ⟨n, p, hn, hp, hbefore, by rw [SearchResult.ofPosition?, hn, Int.toNat_natCast, hp]; rfl⟩
  have hnonnegative : ¬∃ e ∈ texts, e.1 < 0 := by
    rintro ⟨e, he, hnegative⟩
    obtain ⟨n, -, hn, -⟩ := hnamed e he
    omega
  have hnodup : ((texts.filterMap (SearchResult.ofPosition? params)).map (·.1)).Nodup := by
    refine List.pairwise_map.mpr (List.pairwise_filterMap.mpr (hsorted.imp_of_mem ?_))
    intro e e' he he' hless entry hentry entry' hentry'
    obtain ⟨n, p, hn, hp, -, heq⟩ := hnamed e he
    obtain ⟨n', p', hn', -, hbefore, heq'⟩ := hnamed e' he'
    cases heq.symm.trans hentry
    cases heq'.symm.trans hentry'
    exact hbefore n (by omega) p hp
  have hperm : (SearchResult.putAll [] (texts.filterMap (SearchResult.ofPosition? params))).Perm
      (texts.filterMap (SearchResult.ofPosition? params) ++ []) :=
    SearchResult.perm_putAll hnodup fun _ _ => List.not_mem_nil
  rw [List.append_nil] at hperm
  refine ⟨_, (SearchResult.namedTexts_eq params texts).trans (if_neg hnonnegative), ?_, hperm, ?_⟩
  · exact (hperm.map (·.1)).nodup_iff.mpr hnodup
  · rw [hperm.length_eq]
    refine List.filterMap_length_eq_length.mpr fun e he => ?_
    obtain ⟨n, p, -, -, -, heq⟩ := hnamed e he
    rw [heq]
    rfl

namespace Comment

/-! ## What a field is for -/

/-- What has a text of its own in a record: a parameter, by its position, or the returned value. -/
inductive Subject where
  | param (position : Int)
  | result
  deriving DecidableEq

def Subject.text? (doc : Documentation) : Subject → Option String
  | .param i => PositionTexts.get? doc.paramDocs i
  | .result => doc.returnDoc

def Subject.put (doc : Documentation) (text : String) : Subject → Documentation
  | .param i => { doc with paramDocs := PositionTexts.put i text doc.paramDocs }
  | .result => { doc with returnDoc := some text }

theorem Subject.text?_put (doc : Documentation) (text : String) (subject other : Subject) :
    other.text? (subject.put doc text) = if other = subject then some text else other.text? doc := by
  cases subject with
  | param i =>
    cases other with
    | param j => simp [Subject.text?, Subject.put, PositionTexts.get?_put]
    | result => rfl
  | result =>
    cases other with
    | param j => rfl
    | result => rfl

/-- The number of texts that belong to a subject. -/
def size (doc : Documentation) : Nat := doc.paramDocs.length + doc.returnDoc.toList.length

theorem size_put {doc : Documentation} {subject : Subject} (text : String) (hnew : subject.text? doc = none) :
    size (subject.put doc text) = size doc + 1 := by
  cases subject with
  | param i =>
    have hlength := PositionTexts.length_put text hnew
    simp only [size, Subject.put, hlength]
    omega
  | result =>
    have hnone : doc.returnDoc = none := hnew
    rw [size, Subject.put, size, hnone]
    rfl

namespace Field

def text (f : Field) : String := String.ofList (joinParagraphs f.values)

def failures (f : Field) : List String := (conditions f.values).map String.ofList

/-- The subject of a field: the parameter that its argument names, or the returned value. -/
def subject? (signature : Option Signature) (f : Field) : Option Subject :=
  match f.kind with
  | .param => (signature.bind (·.paramIndex? f.arg)).map fun i : Nat => .param i
  | .result => some .result
  | .throws | .ignored | .unknown => none

/-- Whether a field is for a subject. -/
def isFor (signature : Option Signature) (subject : Subject) (f : Field) : Bool :=
  f.subject? signature = some subject

/-- Why a field that stands behind others is dropped, if it is. -/
def dropped? (signature : Option Signature) (earlier : List Field) (f : Field) : Option WarningKind :=
  match f.kind with
  | .unknown => some .unknownField
  | .throws | .ignored => none
  | .param | .result =>
    match f.subject? signature with
    | none => some .unknownParameter
    | some subject => if earlier.any (isFor signature subject) then some .duplicateField else none

def warning (signature : Option Signature) (f : Field) (kind : WarningKind) : Warning :=
  ⟨kind, f.label, f.line, (signature.map (·.key)).getD ""⟩

end Field

/-- The ways a field can go, with what each says about the field and the record before it. -/
inductive Outcome (signature : Option Signature) (doc : Documentation) (f : Field) :
    Except WarningKind Documentation → Prop where
  | taken (subject : Subject) (hfor : f.subject? signature = some subject)
      (hkind : f.kind = .param ∨ f.kind = .result) (hnew : subject.text? doc = none) :
      Outcome signature doc f (.ok (subject.put doc f.text))
  | duplicate (subject : Subject) (hfor : f.subject? signature = some subject)
      (hkind : f.kind = .param ∨ f.kind = .result) (hold : subject.text? doc ≠ none) :
      Outcome signature doc f (.error .duplicateField)
  | unknownParameter (hfor : f.subject? signature = none) (hkind : f.kind = .param) :
      Outcome signature doc f (.error .unknownParameter)
  | throws (hkind : f.kind = .throws) :
      Outcome signature doc f (.ok { doc with failures := doc.failures ++ f.failures })
  | ignored (hkind : f.kind = .ignored) : Outcome signature doc f (.ok doc)
  | unknown (hkind : f.kind = .unknown) : Outcome signature doc f (.error .unknownField)

theorem outcome_addField (signature : Option Signature) (doc : Documentation) (f : Field) :
    Outcome signature doc f (addField signature doc f) := by
  rw [addField]
  cases hkind : f.kind with
  | param =>
    dsimp only
    cases hindex : signature.bind (·.paramIndex? f.arg) with
    | none => exact .unknownParameter (by rw [Field.subject?, hkind, hindex]; rfl) hkind
    | some i =>
      have hfor : f.subject? signature = some (.param i) := by
        rw [Field.subject?, hkind, hindex]
        rfl
      dsimp only
      split
      · rename_i hold
        exact .duplicate _ hfor (.inl hkind) (Option.isSome_iff_ne_none.mp hold)
      · rename_i hnew
        exact .taken _ hfor (.inl hkind) (Option.not_isSome_iff_eq_none.mp hnew)
  | result =>
    have hfor : f.subject? signature = some .result := by rw [Field.subject?, hkind]
    dsimp only
    split
    · rename_i hold
      exact .duplicate _ hfor (.inr hkind) (Option.isSome_iff_ne_none.mp hold)
    · rename_i hnew
      exact .taken _ hfor (.inr hkind) (Option.not_isSome_iff_eq_none.mp hnew)
  | throws => exact .throws hkind
  | ignored => exact .ignored hkind
  | unknown => exact .unknown hkind

/-- The record after a field, which a dropped field leaves as it is. -/
def recordAfter (doc : Documentation) : Except WarningKind Documentation → Documentation
  | .ok doc' => doc'
  | .error _ => doc

/-- The reason that a field was dropped for. -/
def failure? : Except WarningKind Documentation → Option WarningKind
  | .ok _ => none
  | .error kind => some kind

namespace Outcome

variable {signature : Option Signature} {doc : Documentation} {f : Field}
  {result : Except WarningKind Documentation} (h : Outcome signature doc f result)

include h

theorem size_eq :
    size doc + 1 = size (recordAfter doc result) + (if f.kind = .throws then 1 else 0) +
      (if f.kind = .ignored then 1 else 0) + (failure? result).toList.length := by
  cases h with
  | taken subject hfor hkind hnew =>
    have hsize := size_put f.text hnew
    rcases hkind with hkind | hkind <;> simp [recordAfter, failure?, hkind, hsize]
  | duplicate subject hfor hkind hold =>
    rcases hkind with hkind | hkind <;> simp [recordAfter, failure?, hkind]
  | unknownParameter hfor hkind => simp [recordAfter, failure?, hkind]
  | throws hkind => simp [recordAfter, failure?, hkind, size]
  | ignored hkind => simp [recordAfter, failure?, hkind]
  | unknown hkind => simp [recordAfter, failure?, hkind]

theorem sorted (hsorted : doc.paramDocs.Sorted) : (recordAfter doc result).paramDocs.Sorted := by
  cases h with
  | taken subject hfor hkind hnew =>
    cases subject with
    | param i => exact hsorted.put
    | result => exact hsorted
  | _ => exact hsorted

/-- A subject has the text that it had, and otherwise that of a field for it. -/
theorem text?_eq (subject : Subject) :
    subject.text? (recordAfter doc result) =
      (subject.text? doc).or (if f.isFor signature subject then some f.text else none) := by
  cases h with
  | taken other hfor hkind hnew =>
    have hisFor : f.isFor signature subject = decide (subject = other) := by
      simp [Field.isFor, hfor, eq_comm]
    rw [recordAfter, Subject.text?_put, hisFor]
    by_cases heq : subject = other
    · subst heq
      simp [hnew]
    · simp [heq]
  | duplicate other hfor hkind hold =>
    by_cases heq : other = subject
    · subst heq
      obtain ⟨text, htext⟩ := Option.ne_none_iff_exists'.mp hold
      simp [recordAfter, htext]
    · simp [recordAfter, Field.isFor, hfor, heq]
  | unknownParameter hfor hkind => simp [recordAfter, Field.isFor, hfor]
  | throws hkind =>
    have hsame : subject.text? { doc with failures := doc.failures ++ f.failures } = subject.text? doc := by
      cases subject <;> rfl
    simp [recordAfter, Field.isFor, Field.subject?, hkind, hsame]
  | ignored hkind => simp [recordAfter, Field.isFor, Field.subject?, hkind]
  | unknown hkind => simp [recordAfter, Field.isFor, Field.subject?, hkind]

theorem failures_eq :
    (recordAfter doc result).failures = doc.failures ++ if f.kind = .throws then f.failures else [] := by
  cases h with
  | taken subject hfor hkind hnew =>
    have hsame : (subject.put doc f.text).failures = doc.failures := by cases subject <;> rfl
    rcases hkind with hkind | hkind <;> simp [recordAfter, hkind, hsame]
  | duplicate subject hfor hkind hold => rcases hkind with hkind | hkind <;> simp [recordAfter, hkind]
  | unknownParameter hfor hkind => simp [recordAfter, hkind]
  | throws hkind => simp [recordAfter, hkind]
  | ignored hkind => simp [recordAfter, hkind]
  | unknown hkind => simp [recordAfter, hkind]

/-- A field is dropped for the reason that the fields before it give, when the record has the texts of those. -/
theorem failure?_eq {earlier : List Field}
    (htexts : ∀ subject : Subject, earlier.any (Field.isFor signature subject) = (subject.text? doc).isSome) :
    failure? result = f.dropped? signature earlier := by
  cases h with
  | taken subject hfor hkind hnew =>
    rcases hkind with hkind | hkind <;> simp [failure?, Field.dropped?, hkind, hfor, htexts, hnew]
  | duplicate subject hfor hkind hold =>
    have hsome := Option.isSome_iff_ne_none.mpr hold
    rcases hkind with hkind | hkind <;> simp [failure?, Field.dropped?, hkind, hfor, htexts, hsome]
  | unknownParameter hfor hkind => simp [failure?, Field.dropped?, hkind, hfor]
  | throws hkind => simp [failure?, Field.dropped?, hkind]
  | ignored hkind => simp [failure?, Field.dropped?, hkind]
  | unknown hkind => simp [failure?, Field.dropped?, hkind]

end Outcome

/-! ## The run over the fields -/

/-- The warnings about fields, each judged by the fields before it. -/
def warningsOf (signature : Option Signature) (fields : List Field) : List Warning :=
  fields.zipIdx.filterMap fun p => (p.1.dropped? signature (fields.take p.2)).map (p.1.warning signature)

theorem warningsOf_concat (signature : Option Signature) (fields : List Field) (f : Field) :
    warningsOf signature (fields ++ [f]) =
      warningsOf signature fields ++ (f.dropped? signature fields).toList.map (f.warning signature) := by
  have hearlier : ∀ p ∈ fields.zipIdx,
      (p.1.dropped? signature ((fields ++ [f]).take p.2)).map (p.1.warning signature) =
        (p.1.dropped? signature (fields.take p.2)).map (p.1.warning signature) := by
    intro p hp
    have hlt := List.snd_lt_of_mem_zipIdx hp
    rw [List.take_append_of_le_length (by omega)]
  rw [warningsOf, List.zipIdx_append, List.filterMap_append, List.filterMap_congr hearlier, warningsOf,
    List.zipIdx_singleton, Nat.zero_add, List.filterMap_cons, List.take_left, List.filterMap_nil]
  cases f.dropped? signature fields <;> rfl

/-- What a record and the warnings say about the fields that were read for them: each field is counted once, a
subject has the text of the first field for it, the conditions are all there, and what was dropped is reported. -/
structure Accounted (signature : Option Signature) (fields : List Field) (doc : Documentation)
    (warnings : List Warning) : Prop where
  count : fields.length = doc.paramDocs.length + doc.returnDoc.toList.length +
    fields.countP (·.kind = .throws) + fields.countP (·.kind = .ignored) + warnings.length
  sorted : doc.paramDocs.Sorted
  texts (subject : Subject) : subject.text? doc = (fields.find? (Field.isFor signature subject)).map Field.text
  failures : doc.failures = (fields.filter (·.kind = .throws)).flatMap Field.failures
  warned : warnings = warningsOf signature fields

namespace Accounted

variable {signature : Option Signature} {fields : List Field} {doc : Documentation} {warnings : List Warning}

theorem any_isFor (h : Accounted signature fields doc warnings) (subject : Subject) :
    fields.any (Field.isFor signature subject) = (subject.text? doc).isSome := by
  rw [h.texts, Option.isSome_map, Bool.eq_iff_iff, List.any_eq_true, List.find?_isSome]

/-- One field more. -/
theorem add (h : Accounted signature fields doc warnings) {f : Field} {result : Except WarningKind Documentation}
    (hresult : Outcome signature doc f result) :
    Accounted signature (fields ++ [f]) (recordAfter doc result)
      (warnings ++ (failure? result).toList.map (f.warning signature)) where
  count := by
    have hcount := h.count
    have hsize := hresult.size_eq
    simp only [size] at hsize
    simp only [List.length_append, List.length_singleton, List.countP_append, List.countP_singleton,
      decide_eq_true_eq, List.length_map]
    omega
  sorted := hresult.sorted h.sorted
  texts subject := by
    rw [hresult.text?_eq, h.texts, List.find?_append, List.find?_singleton, Option.map_or]
    cases f.isFor signature subject <;> rfl
  failures := by
    rw [hresult.failures_eq, h.failures, List.filter_append, List.flatMap_append, List.filter_singleton]
    by_cases hkind : f.kind = .throws <;> simp [hkind]
  warned := by rw [warningsOf_concat, ← h.warned, ← hresult.failure?_eq h.any_isFor]

theorem addFields (h : Accounted signature fields doc warnings) (later : List Field) :
    Accounted signature (fields ++ later) (addFields signature doc later).1
      (warnings ++ (addFields signature doc later).2) := by
  induction later generalizing fields doc warnings with
  | nil => simpa [Comment.addFields] using h
  | cons f later ih =>
    have hnext := ih (h.add (outcome_addField signature doc f))
    rw [List.append_assoc, List.append_assoc] at hnext
    rw [Comment.addFields]
    cases hadd : addField signature doc f with
    | ok doc' => simpa [hadd, recordAfter, failure?] using hnext
    | error kind => simpa [hadd, recordAfter, failure?, Field.warning] using hnext

/-- The fields of a comment, from a record that has a summary alone. -/
theorem ofFields (signature : Option Signature) (summary : String) (fields : List Field) :
    Accounted signature fields (Comment.addFields signature { summary := summary } fields).1
      (Comment.addFields signature { summary := summary } fields).2 := by
  have hstart : Accounted signature [] { summary := summary } [] :=
    ⟨rfl, List.Pairwise.nil, fun subject => by cases subject <;> rfl, rfl, rfl⟩
  exact hstart.addFields fields

/-- The warnings are in the order of the lines when the fields are. -/
theorem pairwise_line (h : Accounted signature fields doc warnings) (hlines : fields.Pairwise (·.line < ·.line)) :
    warnings.Pairwise (·.line < ·.line) := by
  have hindexed : fields.zipIdx.Pairwise (·.1.line < ·.1.line) := by
    rw [← List.pairwise_map (f := Prod.fst) (R := fun f g : Field => f.line < g.line), List.zipIdx_map_fst]
    exact hlines
  rw [h.warned, warningsOf, List.pairwise_filterMap]
  refine hindexed.imp fun hless w hw w' hw' => ?_
  obtain ⟨kind, -, rfl⟩ := Option.map_eq_some_iff.mp hw
  obtain ⟨kind', -, rfl⟩ := Option.map_eq_some_iff.mp hw'
  exact hless

/-- A text is at the position of a parameter that its name leads to. -/
theorem isFirstNamed (h : Accounted signature fields doc warnings) {e : Int × String} (he : e ∈ doc.paramDocs) :
    IsFirstNamed (paramsOf signature) e.1 := by
  have htext : PositionTexts.get? doc.paramDocs e.1 ≠ none :=
    fun hnone => PositionTexts.get?_eq_none.mp hnone e he rfl
  have hfound := h.texts (.param e.1)
  obtain ⟨text, htext⟩ := Option.ne_none_iff_exists'.mp htext
  obtain ⟨f, hf, -⟩ := Option.map_eq_some_iff.mp (hfound.symm.trans htext)
  have hisFor := List.find?_some hf
  have hfor : f.subject? signature = some (.param e.1) := of_decide_eq_true hisFor
  rw [Field.subject?] at hfor
  split at hfor
  · obtain ⟨n, hindex, heq⟩ := Option.map_eq_some_iff.mp hfor
    obtain ⟨s, rfl, hindex⟩ := Option.bind_eq_some_iff.mp hindex
    rw [← Subject.param.inj heq]
    exact Signature.isFirstNamed_of_paramIndex? hindex
  all_goals cases hfor

end Accounted

/-! ## The lines that open fields -/

/-- The lines of a comment that open a field, each as the field that the line alone makes. -/
def fieldLines (raw : String) : List Field :=
  (((contentLines raw.toList).map trim).zipIdx 1).filterMap fun p => Field.ofLine? (dialect raw) p.2 p.1

/-- The fields of a comment, with the lines that follow as their values. -/
def fieldsOf (raw : String) : List Field :=
  (Sections.ofLines (dialect raw) 1 ((contentLines raw.toList).map trim)).fields

/-- A field without its value. -/
def Field.heading (f : Field) : Field := { f with values := [] }

theorem map_heading_ofLines (d : Dialect) (number : Nat) (lines : List (List Char)) :
    (Sections.ofLines d number lines).fields.map Field.heading =
      ((lines.zipIdx number).filterMap fun p => Field.ofLine? d p.2 p.1).map Field.heading := by
  induction lines generalizing number with
  | nil => rfl
  | cons line lines ih =>
    rw [Sections.ofLines, List.zipIdx_cons, List.filterMap_cons]
    cases Field.ofLine? d number line with
    | none => exact ih (number + 1)
    | some f =>
      dsimp only
      rw [List.map_cons, List.map_cons, ih]
      rfl

/-- Each line that opens a field is there as a field. -/
theorem map_heading_fieldsOf (raw : String) :
    (fieldsOf raw).map Field.heading = (fieldLines raw).map Field.heading :=
  map_heading_ofLines ..

theorem line_of_ofLine? {d : Dialect} {number : Nat} {line : List Char} {f : Field}
    (h : Field.ofLine? d number line = some f) : f.line = number := by
  obtain ⟨parts, -, rfl⟩ := Option.map_eq_some_iff.mp h
  rfl

theorem pairwise_line_fieldLines (raw : String) : (fieldLines raw).Pairwise (·.line < ·.line) := by
  have hnumbers : (((contentLines raw.toList).map trim).zipIdx 1).Pairwise (·.2 < ·.2) := by
    rw [← List.pairwise_map (f := Prod.snd) (R := fun m n : Nat => m < n), List.zipIdx_map_snd]
    exact List.pairwise_lt_range'
  rw [fieldLines, List.pairwise_filterMap]
  refine hnumbers.imp fun hless f hf f' hf' => ?_
  rw [line_of_ofLine? hf, line_of_ofLine? hf']
  exact hless

theorem pairwise_line_fieldsOf (raw : String) : (fieldsOf raw).Pairwise (·.line < ·.line) := by
  have hlines : ((fieldsOf raw).map Field.heading).Pairwise (·.line < ·.line) := by
    rw [map_heading_fieldsOf, List.pairwise_map]
    exact pairwise_line_fieldLines raw
  rw [List.pairwise_map] at hlines
  exact hlines

theorem exists_normalize_eq (raw : String) (signature : Option Signature) :
    ∃ summary, normalize raw signature = addFields signature { summary := summary } (fieldsOf raw) :=
  ⟨_, by rw [normalize, fieldsOf, dialect]⟩

theorem accounted_normalize (raw : String) (signature : Option Signature) :
    Accounted signature (fieldsOf raw) (normalize raw signature).1 (normalize raw signature).2 := by
  obtain ⟨summary, heq⟩ := exists_normalize_eq raw signature
  rw [heq]
  exact .ofFields signature summary (fieldsOf raw)

/-- Every line that opens a field is accounted for, by what the record holds or by a warning; the warnings are in
the order of the lines; the texts of parameters are at positions of parameters that are the first with their names;
and shown by name they are all there. -/
theorem normalize_accounts (raw : String) (signature : Option Signature) :
    (fieldsOf raw).map Field.heading = (fieldLines raw).map Field.heading ∧
      Accounted signature (fieldsOf raw) (normalize raw signature).1 (normalize raw signature).2 ∧
      (normalize raw signature).2.Pairwise (·.line < ·.line) ∧
      (∀ e ∈ (normalize raw signature).1.paramDocs, IsFirstNamed (paramsOf signature) e.1) ∧
      ∃ named, SearchResult.namedTexts (paramsOf signature) (normalize raw signature).1.paramDocs = .ok named ∧
        (named.map (·.1)).Nodup ∧
        named.Perm ((normalize raw signature).1.paramDocs.filterMap
          (SearchResult.ofPosition? (paramsOf signature))) ∧
        named.length = (normalize raw signature).1.paramDocs.length := by
  have hrun := accounted_normalize raw signature
  have hfirst : ∀ e ∈ (normalize raw signature).1.paramDocs, IsFirstNamed (paramsOf signature) e.1 :=
    fun _ he => hrun.isFirstNamed he
  exact ⟨map_heading_fieldsOf raw, hrun, hrun.pairwise_line (pairwise_line_fieldsOf raw), hfirst,
    exists_namedTexts_of_isFirstNamed hrun.sorted hfirst⟩

/-- Of two fields for the first of two parameters with one name, the first is kept. -/
example :
    let x : Parameter := { name := "x", type := .primitive "real" }
    normalize "@param x one\n@param x two" (some { name := "f", params := [x, x] }) =
      ({ paramDocs := [(0, "one")] }, [⟨.duplicateField, "@param", 2, "f(real, real)"⟩]) := by
  decide +kernel

end Comment

end OverloadDocs
