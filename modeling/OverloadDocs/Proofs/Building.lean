import OverloadDocs.Build
import OverloadDocs.Proofs.CommentFields
import OverloadDocs.Proofs.Identity
import OverloadDocs.Proofs.Registering

/-!
What builds of files hold. Every function of a build was declared by a text of the source, has an anchor, and
is documented at positions of its own parameters. Apart from the anchors a build does not depend on the supply
that they are taken from.
-/

namespace OverloadDocs

theorem Signature.IsName.ne_empty {name : String} (h : IsName name) : name ≠ "" := by
  rintro rfl
  exact absurd h.1 (by decide)

theorem Signature.WellFormed.valid {s : Signature} (h : s.WellFormed) : s.Valid :=
  valid_iff.mpr ⟨h.name.ne_empty, h.paramTypes, .inr h.result⟩

/-! ## Positions of parameters -/

/-- The positions increase and are those of so many parameters. -/
structure PositionTexts.Within (m : PositionTexts) (count : Nat) : Prop where
  sorted : m.Sorted
  bounded : ∀ e ∈ m, 0 ≤ e.1 ∧ e.1 < count

namespace Comment

/-- A comment documents parameters of the signature only. -/
theorem within_normalize (raw : String) (s : Signature) :
    (normalize raw (some s)).1.paramDocs.Within s.params.length := by
  have haccounted := accounted_normalize raw (some s)
  exact ⟨haccounted.sorted, fun _ he => (haccounted.isFirstNamed he).bounds⟩

end Comment

/-! ## Entries -/

theorem Anchors.anchorText_ne (n : Nat) : anchorText n ≠ "" :=
  fun h => absurd (String.append_eq_empty_iff.mp h).1 (by decide)

/-- What is registered has an anchor. -/
theorem Index.anchored_ne (supply : Anchors) (s : Signature) : (anchored supply s).1.anchor ≠ "" := by
  have hanchor : (anchored supply s).1.anchor = (supply.orFresh s.anchor).1 := rfl
  rw [hanchor, Anchors.orFresh]
  split
  · exact Anchors.anchorText_ne supply.given
  · rename_i h
    exact h

namespace FileBuild

structure Declared (file : String) (raws : List Source.Declaration) (d : ParsedDeclaration) : Prop where
  wellFormed : d.signature.WellFormed
  file : d.signature.source.file = file
  raw : d.raw ∈ raws
  spelled : Token.lexemes d.raw.text = d.signature.lexemes

theorem declared_parseAll {reader : DeclarationReader} {raws : List Source.Declaration} :
    ∀ d ∈ (parseAll reader raws).1, Declared reader.file raws d := by
  induction raws generalizing reader with
  | nil => exact fun _ => nofun
  | cons raw raws ih =>
      intro d hd
      rw [parseAll, DeclarationReader.read] at hd
      cases hparse : Signature.parse raw.text reader.order with
      | error e =>
          rw [hparse] at hd
          obtain ⟨hs, hfile, hraw, hspelled⟩ := ih d hd
          exact ⟨hs, hfile, List.mem_cons_of_mem _ hraw, hspelled⟩
      | ok s =>
          rw [hparse] at hd
          rcases List.mem_cons.mp hd with rfl | hd
          · obtain ⟨hs, -, -, hspelled⟩ := Signature.parse_eq_ok_iff.mp hparse
            exact ⟨⟨hs.name, hs.paramNames, hs.paramTypes, hs.result⟩, rfl, List.mem_cons_self, hspelled⟩
          · obtain ⟨hs, hfile, hraw, hspelled⟩ := ih d hd
            exact ⟨hs, hfile, List.mem_cons_of_mem _ hraw, hspelled⟩

/-- An entry of the build of a file. -/
structure Entry (file : String) (raws : List Source.Declaration) (e : Documented) : Prop where
  wellFormed : e.signature.WellFormed
  file : e.signature.source.file = file
  anchor : e.signature.anchor ≠ ""
  positions : e.doc.paramDocs.Within e.signature.params.length
  spelled : ∃ raw ∈ raws, Token.lexemes raw.text = e.signature.lexemes

theorem entry_add {file : String} {raws : List Source.Declaration} {all : List ParsedDeclaration}
    {p : Progress} {d : ParsedDeclaration} (hp : ∀ e ∈ p.build.index.entries, Entry file raws e)
    (hd : Declared file raws d) : ∀ e ∈ (p.add all d).build.index.entries, Entry file raws e := by
  rw [Progress.add]
  dsimp only
  split
  · split
    · exact hp
    · exact hp
  · generalize hresult : Comment.normalize _ (some d.signature) = result
    have hpositions : result.1.paramDocs.Within d.signature.params.length :=
      hresult ▸ Comment.within_normalize _ _
    split
    · exact hp
    · rename_i index supply hregister
      obtain ⟨-, -, -, rfl, -⟩ := Index.register_eq_ok.mp hregister
      intro e he
      rcases List.mem_append.mp he with he | he
      · exact hp e he
      · rw [List.mem_singleton.mp he]
        exact ⟨⟨hd.wellFormed.name, hd.wellFormed.paramNames, hd.wellFormed.paramTypes,
          hd.wellFormed.result⟩, hd.file, Index.anchored_ne _ _, hpositions, ⟨d.raw, hd.raw, hd.spelled⟩⟩

theorem entry_foldl {file : String} {raws : List Source.Declaration} {all ds : List ParsedDeclaration}
    {p : Progress} (hp : ∀ e ∈ p.build.index.entries, Entry file raws e)
    (hds : ∀ d ∈ ds, Declared file raws d) :
    ∀ e ∈ (ds.foldl (Progress.add all) p).build.index.entries, Entry file raws e := by
  induction ds generalizing p with
  | nil => exact hp
  | cons d ds ih =>
      obtain ⟨hhead, htail⟩ := List.forall_mem_cons.mp hds
      exact ih (entry_add hp hhead) htail

/-- Every entry of a build is declared in the file. -/
theorem entry_ofSource (supply : Anchors) (file source : String) :
    ∀ e ∈ (ofSource supply file source).1.index.entries, Entry file (Source.declarations source) e := by
  rw [ofSource]
  split
  · exact fun _ => nofun
  · exact entry_foldl (fun _ => nofun) declared_parseAll

end FileBuild

/-! ## The supply -/

/-- The indexes are the same but for the anchors. -/
structure Index.Alike (idx idx' : Index) : Prop where
  entries : idx.entries.map Documented.unanchored = idx'.entries.map Documented.unanchored
  frozen : idx.frozen = idx'.frozen

namespace Index.Alike

variable {idx idx' : Index}

theorem size (h : Alike idx idx') : idx.size = idx'.size := by
  have := congrArg List.length h.entries
  rwa [List.length_map, List.length_map] at this

theorem byKey? (h : Alike idx idx') (key : String) :
    (idx.byKey? key).map Documented.unanchored = (idx'.byKey? key).map Documented.unanchored := by
  have hfind : ∀ es : List Documented, (es.find? (·.signature.key = key)).map Documented.unanchored =
      (es.map Documented.unanchored).find? (·.signature.key = key) := fun es => by
    rw [List.find?_map]
    rfl
  rw [Index.byKey?, Index.byKey?, hfind, hfind, h.entries]

theorem duplicateMessage_eq {e e' : Documented} (h : e.unanchored = e'.unanchored) (s : Signature) :
    duplicateMessage e.signature s = duplicateMessage e'.signature s := by
  have hsource := congrArg (fun f : Documented => f.signature.source) h
  change e.signature.source = e'.signature.source at hsource
  unfold duplicateMessage
  rw [hsource]

/-- A registration has the same outcome in both, but for the anchor. -/
theorem register (h : Alike idx idx') (supply supply' : Anchors) (s : Signature) (doc : Documentation) :
    (∃ e e', idx.register supply (some s) doc = .error e ∧ idx'.register supply' (some s) doc = .error e' ∧
        e.message = e'.message) ∨
      ∃ next next', idx.register supply (some s) doc = .ok next ∧
        idx'.register supply' (some s) doc = .ok next' ∧ Alike next.1 next'.1 := by
  have hkey := h.byKey? s.key
  rw [Index.register, Index.register, ← h.frozen]
  cases hfrozen : idx.frozen with
  | true => exact .inl ⟨_, _, rfl, rfl, rfl⟩
  | false =>
      cases s.fault? with
      | some fault => exact .inl ⟨_, _, rfl, rfl, rfl⟩
      | none =>
          cases hold : idx.byKey? s.key with
          | some e =>
              rw [hold] at hkey
              obtain ⟨e', hold', heq⟩ := Option.map_eq_some_iff.mp hkey.symm
              rw [hold']
              exact .inl ⟨.duplicate e.signature s, .duplicate e'.signature s, rfl, rfl,
                duplicateMessage_eq heq.symm s⟩
          | none =>
              rw [hold] at hkey
              rw [Option.map_eq_none_iff.mp hkey.symm]
              refine .inr ⟨_, _, rfl, rfl, ?_, rfl⟩
              simp only [List.map_append, h.entries]
              rfl

end Index.Alike

namespace FileBuild

/-- Builds in progress that are the same but for the anchors. -/
structure Progress.Alike (p p' : Progress) : Prop where
  index : p.build.index.Alike p'.build.index
  errors : p.build.result.errors.map (·.message) = p'.build.result.errors.map (·.message)
  comments : p.forwardComments = p'.forwardComments

theorem Progress.Alike.add {p p' : Progress} (h : Alike p p') (all : List ParsedDeclaration)
    (d : ParsedDeclaration) : Alike (p.add all d) (p'.add all d) := by
  rw [Progress.add, Progress.add]
  dsimp only
  rw [← h.comments, ← h.index.size]
  split
  · split
    · exact ⟨h.index, h.errors, rfl⟩
    · exact h
  · rcases h.index.register p.supply p'.supply
        { d.signature with order := p.build.index.size } _ with
      ⟨e, e', he, he', hmessage⟩ | ⟨next, next', hnext, hnext', halike⟩
    · rw [he, he']
      dsimp only
      have hlast : (BuildError.refused e).message = (BuildError.refused e').message := hmessage
      refine ⟨h.index, ?_, rfl⟩
      rw [List.map_append, List.map_append, h.errors, List.map_singleton, List.map_singleton, hlast]
    · rw [hnext, hnext']
      dsimp only
      exact ⟨halike, h.errors, rfl⟩

theorem Progress.Alike.foldl {p p' : Progress} (h : Alike p p') (all ds : List ParsedDeclaration) :
    Alike (ds.foldl (Progress.add all) p) (ds.foldl (Progress.add all) p') := by
  induction ds generalizing p p' with
  | nil => exact h
  | cons d ds ih => exact ih (h.add all d)

/-- The supply counts for the anchors only. -/
theorem alike_ofSource (supply supply' : Anchors) (file source : String) :
    (ofSource supply file source).1.index.Alike (ofSource supply' file source).1.index ∧
      (ofSource supply file source).1.result.errors.map (·.message) =
        (ofSource supply' file source).1.result.errors.map (·.message) := by
  rw [ofSource, ofSource]
  split
  · exact ⟨⟨rfl, rfl⟩, rfl⟩
  · let read := parseAll { file := file } (Source.declarations source)
    let start : FileBuild := { file := file, result := { errors := read.2.map .malformed } }
    have hstart : Progress.Alike { build := start, supply := supply } { build := start, supply := supply' } :=
      ⟨⟨rfl, rfl⟩, rfl, rfl⟩
    have hdone := hstart.foldl read.1 read.1
    exact ⟨hdone.index, hdone.errors⟩

end FileBuild

end OverloadDocs
