import OverloadDocs.Proofs.Discovered
import OverloadDocs.Proofs.Trimming

/-!
Clean paths. The elements of a clean path are names, before which a relative path may have dot-dots; such a path
can be read back into its elements. What stands below a folder has the elements of the folder and its own names,
so the folder above it and its path from the folder can be told from the path alone.
-/

namespace OverloadDocs.Path

open OverloadDocs.Tree (IsEntryName)

/-! ## Elements -/

/-- What can stand between slashes. -/
def IsElement (element : String) : Prop := element ≠ "" ∧ '/' ∉ element.toList

theorem IsElement.of_isEntryName {name : String} (h : IsEntryName name) : IsElement name := ⟨h.1, h.2.2.2⟩

theorem isElement_of_mem_elements {path element : String} (h : element ∈ elements path) : IsElement element := by
  obtain ⟨part, hpart, rfl⟩ := List.mem_map.mp h
  obtain ⟨hpart, hne⟩ := List.mem_filter.mp hpart
  rw [IsElement, String.toList_ofList]
  refine ⟨fun hempty => of_decide_eq_true hne ?_, Text.not_mem_of_mem_splitOn hpart⟩
  simpa using congrArg String.toList hempty

theorem elements_append_slash (front back : String) :
    elements (front ++ "/" ++ back) = elements front ++ elements back := by
  have hslash : (front ++ "/" ++ back).toList = front.toList ++ '/' :: back.toList := by
    rw [String.toList_append, String.toList_append, List.append_assoc]
    rfl
  rw [elements, hslash, List.splitOn_append_cons_self, List.filter_append, List.map_append]
  rfl

theorem elements_slash_append (back : String) : elements ("/" ++ back) = elements back := elements_append_slash "" back

theorem elements_of_isElement {element : String} (h : IsElement element) : elements element = [element] := by
  have hsolid : element.toList ≠ [] := fun hempty => h.1 (by simpa using hempty)
  rw [elements, List.splitOn_eq_singleton h.2]
  simp [hsolid]

/-- The elements of a path that consists of some are these. -/
theorem elements_intercalate {es : List String} (hes : ∀ e ∈ es, IsElement e) :
    elements ("/".intercalate es) = es := by
  induction es with
  | nil => rfl
  | cons e es ih =>
      obtain ⟨he, hrest⟩ := List.forall_mem_cons.mp hes
      cases es with
      | nil => exact elements_of_isElement he
      | cons e' es =>
          rw [String.intercalate_cons_cons, elements_append_slash, elements_of_isElement he, ih hrest]
          rfl

/-- Different names have different paths. -/
theorem names_inj {names names' : List String} (hnames : ∀ name ∈ names, IsEntryName name)
    (hnames' : ∀ name ∈ names', IsEntryName name) (h : "/".intercalate names = "/".intercalate names') :
    names = names' := by
  have helements := congrArg elements h
  rwa [elements_intercalate fun name hname => .of_isEntryName (hnames name hname),
    elements_intercalate fun name hname => .of_isEntryName (hnames' name hname)] at helements

/-! ## Clean elements -/

/-- Names, before which a relative path may have dot-dots. -/
def IsClean (absolute : Bool) (es : List String) : Prop :=
  ∃ ups names, es = List.replicate ups ".." ++ names ∧ (absolute = true → ups = 0) ∧
    ∀ name ∈ names, IsEntryName name

theorem IsClean.of_isEntryName {absolute : Bool} {names : List String} (h : ∀ name ∈ names, IsEntryName name) :
    IsClean absolute names := ⟨0, names, rfl, fun _ => rfl, h⟩

theorem IsClean.append {absolute : Bool} {es names : List String} (h : IsClean absolute es)
    (hnames : ∀ name ∈ names, IsEntryName name) : IsClean absolute (es ++ names) := by
  obtain ⟨ups, before, rfl, habsolute, hbefore⟩ := h
  exact ⟨ups, before ++ names, List.append_assoc .., habsolute, List.forall_mem_append.mpr ⟨hbefore, hnames⟩⟩

theorem IsClean.isElement {absolute : Bool} {es : List String} (h : IsClean absolute es) :
    ∀ e ∈ es, IsElement e ∧ e ≠ "." := by
  obtain ⟨ups, names, rfl, -, hnames⟩ := h
  intro e he
  rcases List.mem_append.mp he with he | he
  · rw [List.eq_of_mem_replicate he]
    exact ⟨⟨by decide, by decide⟩, by decide⟩
  · exact ⟨.of_isEntryName (hnames e he), (hnames e he).2.1⟩

theorem pushElement_of_isEntryName {name : String} (hname : IsEntryName name) (absolute : Bool)
    (reversed : List String) : pushElement absolute reversed name = name :: reversed := by
  unfold pushElement
  rw [if_neg hname.2.1, if_neg hname.2.2.1]

theorem pushElement_up_of_ups (ups : Nat) :
    pushElement false (List.replicate ups "..") ".." = List.replicate (ups + 1) ".." := by
  cases ups <;> rfl

/-- What is pushed onto clean elements leaves them clean. -/
theorem IsClean.push {absolute : Bool} {reversed : List String} (h : IsClean absolute reversed.reverse)
    {element : String} (helement : IsElement element) :
    IsClean absolute (pushElement absolute reversed element).reverse := by
  by_cases hdot : element = "."
  · unfold pushElement
    rwa [if_pos hdot]
  · by_cases hup : element = ".."
    · subst hup
      obtain ⟨ups, names, heq, habsolute, hnames⟩ := h
      rw [List.reverse_eq_iff, List.reverse_append, List.reverse_replicate] at heq
      cases names using List.reverseRecOn with
      | nil =>
          rw [heq, List.reverse_nil, List.nil_append]
          cases absolute with
          | true =>
              rw [habsolute rfl]
              exact .of_isEntryName fun _ => nofun
          | false =>
              rw [pushElement_up_of_ups, List.reverse_replicate]
              exact ⟨ups + 1, [], (List.append_nil _).symm, nofun, fun _ => nofun⟩
      | append_singleton names name =>
          obtain ⟨hinit, hlast⟩ := List.forall_mem_append.mp hnames
          have hname := hlast name (List.mem_singleton_self name)
          have hpush : pushElement absolute reversed ".." = names.reverse ++ List.replicate ups ".." := by
            rw [heq, List.reverse_append, List.reverse_singleton, List.singleton_append, List.cons_append]
            unfold pushElement
            rw [if_neg (by decide), if_pos rfl]
            exact if_neg hname.2.2.1
          rw [hpush, List.reverse_append, List.reverse_reverse, List.reverse_replicate]
          exact ⟨ups, names, rfl, habsolute, hinit⟩
    · have hname : IsEntryName element := ⟨helement.1, hdot, hup, helement.2⟩
      rw [pushElement_of_isEntryName hname, List.reverse_cons]
      exact h.append (List.forall_mem_singleton.mpr hname)

theorem isClean_cleanElements (path : String) : IsClean (isAbsolute path) (cleanElements path) := by
  have hfold : ∀ (pushed reversed : List String), (∀ e ∈ pushed, IsElement e) →
      IsClean (isAbsolute path) reversed.reverse →
      IsClean (isAbsolute path) (pushed.foldl (pushElement (isAbsolute path)) reversed).reverse := by
    intro pushed
    induction pushed with
    | nil => exact fun _ _ h => h
    | cons e pushed ih =>
        intro reversed hpushed h
        obtain ⟨he, hrest⟩ := List.forall_mem_cons.mp hpushed
        exact ih _ hrest (h.push he)
  exact hfold _ [] (fun e he => isElement_of_mem_elements he) (.of_isEntryName fun _ => nofun)

theorem foldl_pushElement_names {names : List String} (hnames : ∀ name ∈ names, IsEntryName name) (absolute : Bool)
    (reversed : List String) : names.foldl (pushElement absolute) reversed = names.reverse ++ reversed := by
  induction names generalizing reversed with
  | nil => rfl
  | cons name names ih =>
      obtain ⟨hname, hrest⟩ := List.forall_mem_cons.mp hnames
      rw [List.foldl_cons, pushElement_of_isEntryName hname, ih hrest, List.reverse_cons, List.append_assoc,
        List.singleton_append]

theorem foldl_pushElement_ups (ups kept : Nat) :
    (List.replicate ups "..").foldl (pushElement false) (List.replicate kept "..") =
      List.replicate (ups + kept) ".." := by
  induction ups generalizing kept with
  | zero => rw [Nat.zero_add]; rfl
  | succ ups ih =>
      rw [List.replicate_succ, List.foldl_cons, pushElement_up_of_ups, ih, Nat.add_right_comm]
      rfl

/-- Clean elements are pushed as they are. -/
theorem IsClean.foldl_pushElement {absolute : Bool} {es : List String} (h : IsClean absolute es) :
    es.foldl (pushElement absolute) [] = es.reverse := by
  obtain ⟨ups, names, rfl, habsolute, hnames⟩ := h
  have hups : (List.replicate ups "..").foldl (pushElement absolute) [] = List.replicate ups ".." := by
    cases absolute with
    | true => rw [habsolute rfl]; rfl
    | false => exact foldl_pushElement_ups ups 0
  rw [List.foldl_append, hups, foldl_pushElement_names hnames, List.reverse_append, List.reverse_replicate]

/-! ## Clean paths -/

/-- The clean elements of a path are those that it is read from. -/
theorem IsClean.cleanElements_eq {path : String} {absolute : Bool} {es : List String} (h : IsClean absolute es)
    (habsolute : isAbsolute path = absolute) (helements : elements path = es) : cleanElements path = es := by
  rw [cleanElements, habsolute, helements, h.foldl_pushElement, List.reverse_reverse]

theorem isAbsolute_append {path : String} (h : path ≠ "") (back : String) :
    isAbsolute (path ++ back) = isAbsolute path := by
  have hsolid : path.toList ≠ [] := fun hempty => h (by simpa using hempty)
  rw [isAbsolute, isAbsolute, String.toList_append, List.head?_append_of_ne_nil _ hsolid]

theorem IsElement.isAbsolute {element : String} (h : IsElement element) : Path.isAbsolute element = false := by
  rw [Path.isAbsolute, beq_eq_false_iff_ne]
  exact fun hhead => h.2 (List.mem_of_mem_head? hhead)

theorem intercalate_ne_empty {es : List String} (hes : ∀ e ∈ es, IsElement e) (hne : es ≠ []) :
    "/".intercalate es ≠ "" := by
  intro hempty
  have helements := elements_intercalate hes
  rw [hempty] at helements
  exact hne helements.symm

theorem ofElements_relative {es : List String} (hes : ∀ e ∈ es, IsElement e) (hne : es ≠ []) :
    ofElements false es = "/".intercalate es := if_neg (intercalate_ne_empty hes hne)

theorem isAbsolute_intercalate {es : List String} (hes : ∀ e ∈ es, IsElement e) :
    isAbsolute ("/".intercalate es) = false := by
  cases es with
  | nil => rfl
  | cons e es =>
      have he := hes e List.mem_cons_self
      cases es with
      | nil => exact he.isAbsolute
      | cons e' es =>
          rw [String.intercalate_cons_cons, String.append_assoc, isAbsolute_append he.1]
          exact he.isAbsolute

theorem IsClean.isAbsolute_ofElements {absolute : Bool} {es : List String} (h : IsClean absolute es) :
    isAbsolute (ofElements absolute es) = absolute := by
  have hes := fun e he => (h.isElement e he).1
  cases absolute with
  | true => exact isAbsolute_append (by decide) _
  | false =>
      rw [ofElements, if_neg Bool.false_ne_true]
      split
      · rfl
      · exact isAbsolute_intercalate hes

/-- The path of clean elements can be read back. -/
theorem IsClean.cleanElements_ofElements {absolute : Bool} {es : List String} (h : IsClean absolute es) :
    cleanElements (ofElements absolute es) = es := by
  have hes := fun e he => (h.isElement e he).1
  have habsolute := h.isAbsolute_ofElements
  cases absolute with
  | true => exact h.cleanElements_eq habsolute ((elements_slash_append _).trans (elements_intercalate hes))
  | false =>
      cases es with
      | nil => rfl
      | cons e es =>
          have hjoined := ofElements_relative hes (List.cons_ne_nil e es)
          exact h.cleanElements_eq habsolute (hjoined ▸ elements_intercalate hes)

theorem IsClean.clean_ofElements {absolute : Bool} {es : List String} (h : IsClean absolute es) :
    clean (ofElements absolute es) = ofElements absolute es := by
  rw [clean, h.isAbsolute_ofElements, h.cleanElements_ofElements]

theorem clean_clean (path : String) : clean (clean path) = clean path := (isClean_cleanElements path).clean_ofElements

/-- A path has the same clean form as one of clean elements just when these are its own. -/
theorem IsClean.clean_eq_iff {path : String} {absolute : Bool} {es : List String} (h : IsClean absolute es) :
    clean path = ofElements absolute es ↔ isAbsolute path = absolute ∧ cleanElements path = es := by
  constructor
  · intro heq
    have hown := isClean_cleanElements path
    rw [clean] at heq
    have habsolute := hown.isAbsolute_ofElements
    have helements := hown.cleanElements_ofElements
    rw [heq] at habsolute helements
    exact ⟨habsolute.symm.trans h.isAbsolute_ofElements, helements.symm.trans h.cleanElements_ofElements⟩
  · rintro ⟨rfl, rfl⟩
    rfl

/-! ## Below a folder -/

section Below

variable {root : String} {names : List String}

theorem isClean_below (hnames : ∀ name ∈ names, IsEntryName name) :
    IsClean (isAbsolute root) (cleanElements root ++ names) := (isClean_cleanElements root).append hnames

/-- What stands below a folder has the elements of the folder and then its own names. -/
theorem join_below (hroot : root ≠ "") (hnames : ∀ name ∈ names, IsEntryName name) (hne : names ≠ []) :
    join [root, "/".intercalate names] = ofElements (isAbsolute root) (cleanElements root ++ names) := by
  have hes := fun name hname => IsElement.of_isEntryName (hnames name hname)
  have hfilter : [root, "/".intercalate names].filter (· ≠ "") = [root, "/".intercalate names] := by
    simp [hroot, intercalate_ne_empty hes hne]
  have hjoined : join [root, "/".intercalate names] = clean (root ++ "/" ++ "/".intercalate names) := by
    rw [join, hfilter]
    rfl
  have habsolute : isAbsolute (root ++ "/" ++ "/".intercalate names) = isAbsolute root := by
    rw [String.append_assoc, isAbsolute_append hroot]
  have helements : cleanElements (root ++ "/" ++ "/".intercalate names) = cleanElements root ++ names := by
    rw [cleanElements, habsolute, elements_append_slash, elements_intercalate hes, List.foldl_append,
      foldl_pushElement_names hnames, List.reverse_append, List.reverse_reverse, cleanElements]
  rw [hjoined, clean, habsolute, helements]

theorem intercalate_concat {es : List String} (hne : es ≠ []) (name : String) :
    "/".intercalate (es ++ [name]) = "/".intercalate es ++ "/" ++ name := by
  induction es with
  | nil => exact absurd rfl hne
  | cons e es ih =>
      cases es with
      | nil => rfl
      | cons e' es =>
          rw [List.cons_append, List.cons_append, String.intercalate_cons_cons, ← List.cons_append,
            ih (List.cons_ne_nil e' es), String.intercalate_cons_cons]
          simp only [String.append_assoc]

theorem directory_append_slash (front : String) {name : String} (hname : '/' ∉ name.toList) :
    directory (front ++ "/" ++ name) = clean (front ++ "/") := by
  have hall : ∀ c ∈ name.toList.reverse, decide (c ≠ '/') = true :=
    fun c hc => decide_eq_true fun heq => hname (heq ▸ List.mem_reverse.mp hc)
  have hfront : (front ++ "/").toList = front.toList ++ ['/'] := String.toList_append
  have hdropped : (front ++ "/" ++ name).toList.reverse.dropWhile (· ≠ '/') = (front ++ "/").toList.reverse := by
    rw [String.toList_append, List.reverse_append, List.dropWhile_append_of_pos hall, hfront, List.reverse_append]
    rfl
  rw [directory, hdropped, List.reverse_reverse, String.ofList_toList]

theorem directory_of_not_mem {name : String} (hname : '/' ∉ name.toList) : directory name = "." := by
  have hall : ∀ c ∈ name.toList.reverse, decide (c ≠ '/') = true :=
    fun c hc => decide_eq_true fun heq => hname (heq ▸ List.mem_reverse.mp hc)
  rw [directory, List.dropWhile_eq_nil_iff.mpr hall]
  rfl

theorem IsClean.directory_append_slash {absolute : Bool} {es : List String} (h : IsClean absolute es)
    (front : String) (habsolute : isAbsolute (front ++ "/") = absolute) (helements : elements front = es)
    {name : String} (hname : IsEntryName name) : directory (front ++ "/" ++ name) = ofElements absolute es := by
  have hslash : elements (front ++ "/") = es := by
    have hempty := elements_append_slash front ""
    rw [String.append_empty, helements] at hempty
    exact hempty.trans (List.append_nil es)
  rw [Path.directory_append_slash front hname.2.2.2, h.clean_eq_iff]
  exact ⟨habsolute, h.cleanElements_eq habsolute hslash⟩

/-- Without its last name a clean path is that of the elements before. -/
theorem IsClean.directory_ofElements {absolute : Bool} {es : List String} (h : IsClean absolute es) {name : String}
    (hname : IsEntryName name) : directory (ofElements absolute (es ++ [name])) = ofElements absolute es := by
  have hes := fun e he => (h.isElement e he).1
  have hlast := IsElement.of_isEntryName hname
  by_cases hne : es = []
  · subst hne
    cases absolute with
    | true => exact h.directory_append_slash "" rfl rfl hname
    | false =>
        have hname' : ofElements false [name] = name := if_neg hlast.1
        exact (congrArg directory hname').trans (directory_of_not_mem hlast.2)
  · have hjoined := intercalate_concat hne name
    have hsolid := intercalate_ne_empty hes hne
    cases absolute with
    | true =>
        have hpath : ofElements true (es ++ [name]) = "/" ++ "/".intercalate es ++ "/" ++ name := by
          rw [ofElements, if_pos rfl, hjoined]
          simp only [String.append_assoc]
        have habsolute : isAbsolute ("/" ++ "/".intercalate es ++ "/") = true := by
          rw [String.append_assoc]
          exact isAbsolute_append (by decide) _
        rw [hpath]
        exact h.directory_append_slash _ habsolute ((elements_slash_append _).trans (elements_intercalate hes)) hname
    | false =>
        have hpath : ofElements false (es ++ [name]) = "/".intercalate es ++ "/" ++ name := by
          have hall := List.forall_mem_append.mpr ⟨hes, List.forall_mem_singleton.mpr hlast⟩
          rw [ofElements_relative hall (by simp), hjoined]
        have habsolute : isAbsolute ("/".intercalate es ++ "/") = false :=
          (isAbsolute_append hsolid "/").trans (isAbsolute_intercalate hes)
        rw [hpath]
        exact h.directory_append_slash _ habsolute (elements_intercalate hes) hname

theorem dropCommon_append (as bs : List String) : dropCommon as (as ++ bs) = ([], bs) := by
  induction as with
  | nil => cases bs <;> rfl
  | cons a as ih => rw [List.cons_append, dropCommon, if_pos rfl, ih]

/-- The way from a folder to what stands below it is by the names. -/
theorem relative?_below (hroot : root ≠ "") (hnames : ∀ name ∈ names, IsEntryName name) (hne : names ≠ [])
    {path : String} (hpath : clean path = join [root, "/".intercalate names]) :
    relative? root path = some ("/".intercalate names) := by
  have hes := fun name hname => IsElement.of_isEntryName (hnames name hname)
  rw [join_below hroot hnames hne, (isClean_below hnames).clean_eq_iff] at hpath
  obtain ⟨habsolute, helements⟩ := hpath
  rw [relative?, habsolute, if_neg (by simp), helements, dropCommon_append]
  exact congrArg some (ofElements_relative hes hne)

end Below

end OverloadDocs.Path
