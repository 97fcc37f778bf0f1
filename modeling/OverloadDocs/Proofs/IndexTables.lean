import OverloadDocs.Index.Tables
import OverloadDocs.Proofs.Identity
import OverloadDocs.Proofs.Registering
import OverloadDocs.Proofs.Tables

/-!
The tables of an index. Whatever is registered and refused, they stay in step with the list of the entries, so
that each look-up answers as the list does. Tables are asked by texts of overloads, while the laws speak of names
and types: entries are valid, and a valid overload has a text of its own, but what is looked up may be ill formed
and have the text of another.
-/

namespace OverloadDocs

/-- Of one more member it counts whether it is there already. -/
theorem eraseDups_append_singleton {α : Type} [DecidableEq α] (xs : List α) (x : α) :
    (xs ++ [x]).eraseDups = if x ∈ xs then xs.eraseDups else xs.eraseDups ++ [x] := by
  rw [List.eraseDups_append]
  by_cases hseen : x ∈ xs
  · have hnone : [x].removeAll xs = [] := by
      rw [List.removeAll, List.filter_cons_of_neg (by simpa using hseen), List.filter_nil]
    rw [if_pos hseen, hnone, List.eraseDups_nil, List.append_nil]
  · have hrest : [x].removeAll xs = [x] := by
      rw [List.removeAll, List.filter_cons_of_pos (by simpa using hseen), List.filter_nil]
    rw [if_neg hseen, hrest]
    rfl

theorem Index.names_eq_eraseDups (idx : Index) : idx.names = (idx.signatures.map (·.name)).eraseDups := by
  unfold names
  induction idx.signatures using List.reverseRecOn with
  | nil => rfl
  | append_singleton sigs s ih =>
      rw [List.foldl_append, List.foldl_cons, List.foldl_nil, ih, List.map_append, List.map_singleton,
        eraseDups_append_singleton]
      simp only [List.contains_iff_mem, List.mem_eraseDups]

/-- Valid signatures that differ as overloads differ in their keys. -/
theorem Signature.key_ne_of_not_sameOverload {s t : Signature} (hs : s.Valid) (ht : t.Valid)
    (h : ¬ s.SameOverload t) : s.key ≠ t.key :=
  fun hkey => h (identityKey_injective hs.paramTypes ht.paramTypes hkey)

theorem Signature.SameOverload.key_eq {s t : Signature} (h : s.SameOverload t) : s.key = t.key := by
  rw [key, key, h.1, h.2]

namespace TabledIndex

/-- The tables say what the list of the entries says, and the entries are valid and differ in their keys. -/
structure InStep (t : TabledIndex) : Prop where
  names : ∀ name, t.nameTable name = t.entries.filter (·.signature.name = name)
  keys : ∀ key, t.keyTable key = t.byKey? key
  valid : ∀ e ∈ t.entries, e.signature.Valid
  distinct : (t.entries.map (·.signature.key)).Nodup

variable {t : TabledIndex}

theorem InStep.empty : InStep {} := ⟨fun _ => rfl, fun _ => rfl, fun _ => nofun, List.nodup_nil⟩

theorem InStep.freeze (h : t.InStep) : t.freeze.InStep := ⟨h.names, h.keys, h.valid, h.distinct⟩

theorem InStep.byKey?_eq_some (h : t.InStep) {key : String} {e : Documented} :
    t.byKey? key = some e ↔ e ∈ t.entries ∧ e.signature.key = key :=
  find?_key_eq_some h.distinct

theorem InStep.keyTable_eq_some (h : t.InStep) {key : String} {e : Documented} :
    t.keyTable key = some e ↔ e ∈ t.entries ∧ e.signature.key = key := by
  rw [h.keys, h.byKey?_eq_some]

theorem InStep.keyTable_eq_none (h : t.InStep) {key : String} :
    t.keyTable key = none ↔ key ∉ t.entries.map (·.signature.key) := by
  rw [h.keys, Index.byKey?_eq_none]

/-- A valid function with a new key is entered in the list and in both tables. -/
theorem InStep.add (h : t.InStep) {e : Documented} (hvalid : e.signature.Valid)
    (hnew : e.signature.key ∉ t.entries.map (·.signature.key)) : (t.add e).InStep where
  names name := by
    simp only [TabledIndex.add, h.names, List.filter_append]
    by_cases hname : name = e.signature.name
    · simp [hname]
    · simp [hname, Ne.symm hname]
  keys key := by
    simp only [TabledIndex.add, h.keys, Index.byKey?, List.find?_append]
    by_cases hkey : key = e.signature.key
    · have hnone : t.entries.find? (·.signature.key = key) = none := Index.byKey?_eq_none.mpr (hkey ▸ hnew)
      rw [if_pos hkey, hnone]
      simp [hkey]
    · simp [hkey, Ne.symm hkey]
  valid := List.forall_mem_append.mpr ⟨h.valid, List.forall_mem_singleton.mpr hvalid⟩
  distinct := by
    rw [TabledIndex.add, List.map_append, List.map_singleton, ← List.concat_eq_append, List.nodup_concat]
    exact ⟨hnew, h.distinct⟩

/-! ## What a registration does -/

/-- All that a registration can lead to, each with when it does. -/
inductive Registers (t : TabledIndex) (supply : Anchors) (s : Option Signature) (doc : Option Documentation) :
    Registration → Prop where
  | frozen (hfrozen : t.frozen = true) : Registers t supply s doc (t.refuse supply s .frozen)
  | absent (hopen : t.frozen = false) (hs : s = none) : Registers t supply s doc (t.refuse supply s .absent)
  | invalid {sig : Signature} {fault : Signature.Fault} (hopen : t.frozen = false) (hs : s = some sig)
      (hfault : sig.fault? = some fault) :
      Registers t supply s doc (t.refuse supply s (.invalid sig.name fault))
  | duplicate {sig : Signature} {e : Documented} (hopen : t.frozen = false) (hs : s = some sig)
      (hvalid : sig.Valid) (he : e ∈ t.entries) (hsame : e.signature.SameOverload sig) :
      Registers t supply s doc (t.refuse supply s (.duplicate e.signature sig))
  | entered {sig : Signature} (hopen : t.frozen = false) (hs : s = some sig) (hvalid : sig.Valid)
      (hnew : ∀ e ∈ t.entries, ¬ e.signature.SameOverload sig) :
      Registers t supply s doc
        { index := t.add ⟨(Index.anchored supply sig).1, doc.getD {}⟩
          supply := (Index.anchored supply sig).2
          signature := some (Index.anchored supply sig).1 }

theorem InStep.registers (h : t.InStep) (supply : Anchors) (s : Option Signature)
    (doc : Option Documentation) : t.Registers supply s doc (t.register supply s doc) := by
  unfold TabledIndex.register
  cases hfrozen : t.frozen with
  | true => exact .frozen hfrozen
  | false =>
      rw [if_neg Bool.false_ne_true]
      cases s with
      | none => exact .absent hfrozen rfl
      | some sig =>
          dsimp only
          cases hfault : sig.fault? with
          | some fault => exact .invalid hfrozen rfl hfault
          | none =>
              cases hkey : t.keyTable sig.key with
              | some e =>
                  -- Both signatures are valid here, so that their text stands for their overload.
                  obtain ⟨he, hsame⟩ := h.keyTable_eq_some.mp hkey
                  exact .duplicate hfrozen rfl hfault he
                    (identityKey_injective (h.valid e he).paramTypes (Signature.Valid.paramTypes hfault) hsame)
              | none =>
                  refine .entered hfrozen rfl hfault fun e he hsame => ?_
                  exact h.keyTable_eq_none.mp hkey (List.mem_map.mpr ⟨e, he, hsame.key_eq⟩)

/-- A registration keeps the tables in step, whether it goes through or not. -/
theorem InStep.register (h : t.InStep) (supply : Anchors) (s : Option Signature)
    (doc : Option Documentation) : (t.register supply s doc).index.InStep := by
  have hstep := h.registers supply s doc
  generalize t.register supply s doc = r at hstep
  cases hstep with
  | frozen => exact h
  | absent => exact h
  | invalid => exact h
  | duplicate => exact h
  | entered hopen hs hvalid hnew =>
      refine h.add hvalid fun hmem => ?_
      obtain ⟨e, he, hkey⟩ := List.mem_map.mp hmem
      exact Signature.key_ne_of_not_sameOverload (h.valid e he) hvalid (hnew e he) hkey

theorem inStep_afterCalls (supply : Anchors) (calls : List IndexCall) :
    (afterCalls supply calls).1.InStep := by
  induction calls using List.reverseRecOn with
  | nil => exact .empty
  | append_singleton calls call ih =>
      rw [afterCalls, List.foldl_append, List.foldl_cons, List.foldl_nil]
      cases call with
      | register s doc => exact ih.register _ s doc
      | freeze => exact ih.freeze

/-! ## Look-ups -/

/-- The look-ups through the tables are the views of the list. -/
theorem InStep.overloads_eq (h : t.InStep) (name : String) : t.overloads name = t.byName name := by
  rw [overloads, h.names, Index.byName, Index.signatures, List.filter_map]
  rfl

theorem InStep.knows_eq (h : t.InStep) (name : String) : t.knows name = t.hasName name := by
  rw [knows, h.names, Index.hasName, Bool.eq_iff_iff]
  simp

theorem InStep.find?_eq (h : t.InStep) (name : String) (types : List TypeExpr) :
    t.find? name types = t.lookup? name types := by
  rw [find?, h.keys, Index.lookup?]

theorem InStep.record?_eq (h : t.InStep) (s : Signature) : t.record? s = t.doc? s := by
  rw [record?, h.keys, Index.doc?]

/-- A registration is the one of the list of the entries. -/
theorem InStep.register_eq (h : t.InStep) (supply : Anchors) (s : Option Signature)
    (doc : Option Documentation) :
    t.toIndex.register supply s (doc.getD {}) =
      match (t.register supply s doc).refusal with
      | none => .ok ((t.register supply s doc).index.toIndex, (t.register supply s doc).supply)
      | some e => .error e := by
  unfold TabledIndex.register Index.register
  cases hfrozen : t.frozen with
  | true => rfl
  | false =>
      rw [if_neg Bool.false_ne_true, if_neg Bool.false_ne_true]
      cases s with
      | none => rfl
      | some sig =>
          dsimp only
          cases sig.fault? with
          | some fault => rfl
          | none =>
              dsimp only
              rw [h.keys]
              cases t.byKey? sig.key with
              | some e => rfl
              | none =>
                  rw [← hfrozen]
                  rfl

/-- What look-ups answer, in terms of the registered functions. Types that are looked up need not be well
formed. -/
structure LookUpLaws (t : TabledIndex) : Prop where
  distinct : t.signatures.Pairwise fun s s' => ¬ s.SameOverload s'
  overloads : ∀ name, t.overloads name = t.signatures.filter (·.name = name)
  find : ∀ name types s, t.find? name types = some s ↔ s ∈ t.signatures ∧ s.name = name ∧ s.paramTypes = types
  record : ∀ s doc, t.record? s = some doc ↔ ∃ e ∈ t.entries, e.signature.SameOverload s ∧ e.doc = doc
  names : t.names = (t.signatures.map (·.name)).eraseDups
  size : t.size = t.signatures.length

theorem InStep.find?_eq_some (h : t.InStep) {name : String} {types : List TypeExpr} {s : Signature} :
    t.find? name types = some s ↔ s ∈ t.signatures ∧ s.name = name ∧ s.paramTypes = types := by
  rw [h.find?_eq, Index.lookup?, Option.bind_eq_some_iff]
  constructor
  · rintro ⟨e, hkey, hs⟩
    obtain ⟨hsame, hs⟩ := Option.ite_none_right_eq_some.mp hs
    obtain rfl := Option.some.inj hs
    exact ⟨List.mem_map_of_mem (h.byKey?_eq_some.mp hkey).1, hsame⟩
  · rintro ⟨hs, rfl, rfl⟩
    obtain ⟨e, he, rfl⟩ := List.mem_map.mp hs
    exact ⟨e, h.byKey?_eq_some.mpr ⟨he, rfl⟩, if_pos ⟨rfl, rfl⟩⟩

theorem InStep.record?_eq_some (h : t.InStep) {s : Signature} {doc : Documentation} :
    t.record? s = some doc ↔ ∃ e ∈ t.entries, e.signature.SameOverload s ∧ e.doc = doc := by
  rw [h.record?_eq, Index.doc?, Option.bind_eq_some_iff]
  constructor
  · rintro ⟨e, hkey, hdoc⟩
    obtain ⟨hsame, hdoc⟩ := Option.ite_none_right_eq_some.mp hdoc
    exact ⟨e, (h.byKey?_eq_some.mp hkey).1, hsame, Option.some.inj hdoc⟩
  · rintro ⟨e, he, hsame, rfl⟩
    exact ⟨e, h.byKey?_eq_some.mpr ⟨he, hsame.key_eq⟩, if_pos hsame⟩

theorem InStep.lookUpLaws (h : t.InStep) : t.LookUpLaws where
  distinct := by
    have hkeys : t.signatures.Pairwise fun s s' => s.key ≠ s'.key := by
      rw [Index.signatures, List.pairwise_map, ← List.pairwise_map]
      exact h.distinct
    exact hkeys.imp fun hne hsame => hne hsame.key_eq
  overloads := h.overloads_eq
  find _ _ _ := h.find?_eq_some
  record _ _ := h.record?_eq_some
  names := t.names_eq_eraseDups
  size := (List.length_map _).symm

/-! ## Registrations -/

/-- When a registration goes through and what it leaves behind otherwise. -/
structure RegisterLaws (t : TabledIndex) (supply : Anchors) (s : Option Signature)
    (doc : Option Documentation) (r : Registration) : Prop where
  accepted : r.refusal = none ↔
    t.frozen = false ∧ ∃ sig ∈ s, sig.Valid ∧ ∀ s' ∈ t.signatures, ¬ s'.SameOverload sig
  entered : r.refusal = none → ∃ sig ∈ s, ∃ anchor, r.signature = some { sig with anchor := anchor } ∧
    r.index.entries = t.entries ++ [⟨{ sig with anchor := anchor }, doc.getD {}⟩]
  unchanged : r.refusal ≠ none → r.index = t ∧ r.supply = supply ∧ r.signature = s
  duplicate : ∀ existing sig, r.refusal = some (.duplicate existing sig) ↔
    t.frozen = false ∧ s = some sig ∧ sig.Valid ∧ existing ∈ t.signatures ∧ existing.SameOverload sig

theorem InStep.eq_of_sameOverload (h : t.InStep) {s s' sig : Signature} (hs : s ∈ t.signatures)
    (hs' : s' ∈ t.signatures) (hsame : s.SameOverload sig) (hsame' : s'.SameOverload sig) : s = s' := by
  have hfind := h.find?_eq_some.mpr ⟨hs, hsame⟩
  have hfind' := h.find?_eq_some.mpr ⟨hs', hsame'⟩
  exact Option.some.inj (hfind.symm.trans hfind')

namespace Registers

variable {supply : Anchors} {s : Option Signature} {doc : Option Documentation} {r : Registration}

/-- A registration goes through just when the index is open and the overload valid and new. -/
theorem refusal_eq_none (h : t.Registers supply s doc r) :
    r.refusal = none ↔
      t.frozen = false ∧ ∃ sig ∈ s, sig.Valid ∧ ∀ s' ∈ t.signatures, ¬ s'.SameOverload sig := by
  cases h with
  | frozen hfrozen =>
      refine iff_of_false (Option.some_ne_none _) ?_
      rintro ⟨hopen, -⟩
      rw [hfrozen] at hopen
      contradiction
  | absent hopen hs =>
      refine iff_of_false (Option.some_ne_none _) ?_
      rintro ⟨-, sig, hsig, -⟩
      rw [hs] at hsig
      contradiction
  | invalid hopen hs hfault =>
      refine iff_of_false (Option.some_ne_none _) ?_
      rintro ⟨-, sig, hsig, hvalid, -⟩
      obtain rfl := Option.some.inj (hs.symm.trans hsig)
      rw [Signature.Valid, hfault] at hvalid
      contradiction
  | duplicate hopen hs hvalid he hsame =>
      refine iff_of_false (Option.some_ne_none _) ?_
      rintro ⟨-, sig, hsig, -, hnew⟩
      obtain rfl := Option.some.inj (hs.symm.trans hsig)
      exact hnew _ (List.mem_map_of_mem he) hsame
  | entered hopen hs hvalid hnew =>
      exact iff_of_true rfl ⟨hopen, _, hs, hvalid, List.forall_mem_map.mpr hnew⟩

theorem entries_of_accepted (h : t.Registers supply s doc r) (hr : r.refusal = none) :
    ∃ sig ∈ s, ∃ anchor, r.signature = some { sig with anchor := anchor } ∧
      r.index.entries = t.entries ++ [⟨{ sig with anchor := anchor }, doc.getD {}⟩] := by
  cases h with
  | frozen => contradiction
  | absent => contradiction
  | invalid => contradiction
  | duplicate => contradiction
  | entered hopen hs hvalid hnew => exact ⟨_, hs, _, rfl, rfl⟩

theorem unchanged_of_refused (h : t.Registers supply s doc r) (hr : r.refusal ≠ none) :
    r.index = t ∧ r.supply = supply ∧ r.signature = s := by
  cases h with
  | frozen => exact ⟨rfl, rfl, rfl⟩
  | absent => exact ⟨rfl, rfl, rfl⟩
  | invalid => exact ⟨rfl, rfl, rfl⟩
  | duplicate => exact ⟨rfl, rfl, rfl⟩
  | entered => exact absurd rfl hr

end Registers

/-- A refused duplicate names the entry that has the overload already. -/
theorem InStep.refusal_eq_duplicate (h : t.InStep) {supply : Anchors} {s : Option Signature}
    {doc : Option Documentation} {r : Registration} (hr : t.Registers supply s doc r)
    {existing sig : Signature} :
    r.refusal = some (.duplicate existing sig) ↔
      t.frozen = false ∧ s = some sig ∧ sig.Valid ∧ existing ∈ t.signatures ∧ existing.SameOverload sig := by
  cases hr with
  | frozen hfrozen =>
      refine iff_of_false (fun heq => RegisterError.noConfusion (Option.some.inj heq)) ?_
      rintro ⟨hopen, -⟩
      rw [hfrozen] at hopen
      contradiction
  | absent hopen hs =>
      refine iff_of_false (fun heq => RegisterError.noConfusion (Option.some.inj heq)) ?_
      rintro ⟨-, hsig, -⟩
      rw [hs] at hsig
      contradiction
  | invalid hopen hs hfault =>
      refine iff_of_false (fun heq => RegisterError.noConfusion (Option.some.inj heq)) ?_
      rintro ⟨-, hsig, hvalid, -⟩
      obtain rfl := Option.some.inj (hs.symm.trans hsig)
      rw [Signature.Valid, hfault] at hvalid
      contradiction
  | duplicate hopen hs hvalid he hsame =>
      have hmem := List.mem_map_of_mem (f := Documented.signature) he
      constructor
      · intro heq
        obtain ⟨rfl, rfl⟩ := RegisterError.duplicate.inj (Option.some.inj heq)
        exact ⟨hopen, hs, hvalid, hmem, hsame⟩
      · rintro ⟨-, hsig, -, hexisting, hsame'⟩
        obtain rfl := Option.some.inj (hs.symm.trans hsig)
        rw [h.eq_of_sameOverload hexisting hmem hsame' hsame]
        rfl
  | entered hopen hs hvalid hnew =>
      refine iff_of_false (Option.some_ne_none _).symm ?_
      rintro ⟨-, hsig, -, hexisting, hsame⟩
      obtain rfl := Option.some.inj (hs.symm.trans hsig)
      obtain ⟨e, he, rfl⟩ := List.mem_map.mp hexisting
      exact hnew e he hsame

theorem InStep.registerLaws (h : t.InStep) (supply : Anchors) (s : Option Signature)
    (doc : Option Documentation) : t.RegisterLaws supply s doc (t.register supply s doc) :=
  have hstep := h.registers supply s doc
  { accepted := hstep.refusal_eq_none
    entered := hstep.entries_of_accepted
    unchanged := hstep.unchanged_of_refused
    duplicate := fun _ _ => h.refusal_eq_duplicate hstep }

end TabledIndex

/-! ## What has been registered -/

/-- The valid functions that calls give before the index is frozen. -/
def IndexCall.given : List IndexCall → List Documented
  | [] => []
  | .freeze :: _ => []
  | .register none _ :: calls => given calls
  | .register (some sig) doc :: calls =>
    if sig.Valid then ⟨sig, doc.getD {}⟩ :: given calls else given calls

namespace TabledIndex

variable {t : TabledIndex}

theorem foldl_frozen (hfrozen : t.frozen = true) (supply : Anchors) (calls : List IndexCall) :
    calls.foldl IndexCall.apply (t, supply) = (t, supply) := by
  induction calls with
  | nil => rfl
  | cons call calls ih =>
      have hkeep : IndexCall.apply (t, supply) call = (t, supply) := by
        cases call with
        | register s doc =>
            have hrefused : t.register supply s doc = t.refuse supply s .frozen := if_pos hfrozen
            rw [IndexCall.apply, hrefused]
            rfl
        | freeze =>
            rw [IndexCall.apply, freeze, ← hfrozen]
      rw [List.foldl_cons, hkeep, ih]

/-- Calls add the first functions of overloads that are not there yet. -/
theorem InStep.entries_foldl (h : t.InStep) (hopen : t.frozen = false) {es : List Documented}
    (hes : t.entries.map Documented.unanchored = (Documented.firsts es).map Documented.unanchored)
    (supply : Anchors) (calls : List IndexCall) :
    (calls.foldl IndexCall.apply (t, supply)).1.entries.map Documented.unanchored =
      (Documented.firsts (es ++ IndexCall.given calls)).map Documented.unanchored := by
  -- `es` are the valid functions given so far, from which the first ones of each overload have been entered.
  induction calls generalizing t supply es with
  | nil =>
      rw [IndexCall.given, List.append_nil]
      exact hes
  | cons call calls ih =>
      cases call with
      | freeze =>
          rw [List.foldl_cons, IndexCall.apply, foldl_frozen rfl, IndexCall.given, List.append_nil]
          exact hes
      | register s doc =>
          have hkeys : t.entries.map (·.signature.key) = (Documented.firsts es).map (·.signature.key) := by
            have hmapped := congrArg (List.map (·.signature.key)) hes
            rwa [List.map_map, List.map_map] at hmapped
          have hin := h.register supply s doc
          have hstep := h.registers supply s doc
          rw [List.foldl_cons, IndexCall.apply]
          generalize t.register supply s doc = r at hin hstep
          cases hstep with
          | frozen hfrozen =>
              rw [hopen] at hfrozen
              contradiction
          | absent _ hs =>
              subst hs
              exact ih h hopen hes supply
          | invalid _ hs hfault =>
              subst hs
              have hinvalid : ¬ Signature.Valid _ := fun hvalid => by
                rw [Signature.Valid, hfault] at hvalid
                contradiction
              rw [IndexCall.given, if_neg hinvalid]
              exact ih h hopen hes supply
          | @duplicate sig e _ hs hvalid he hsame =>
              subst hs
              rw [IndexCall.given, if_pos hvalid, List.append_cons]
              refine ih h hopen ?_ supply
              have hthere : sig.key ∈ es.map (·.signature.key) := by
                rw [← Documented.mem_keys_firsts, ← hkeys, ← hsame.key_eq]
                exact List.mem_map_of_mem he
              rw [Documented.firsts_append_singleton, if_pos hthere, hes]
          | @entered sig _ hs hvalid hnew =>
              subst hs
              rw [IndexCall.given, if_pos hvalid, List.append_cons]
              refine ih hin hopen ?_ _
              have hmissing : sig.key ∉ es.map (·.signature.key) := by
                rw [← Documented.mem_keys_firsts, ← hkeys]
                intro hmem
                obtain ⟨e, he, hkey⟩ := List.mem_map.mp hmem
                exact Signature.key_ne_of_not_sameOverload (h.valid e he) hvalid (hnew e he) hkey
              rw [Documented.firsts_append_singleton, if_neg hmissing, List.map_append, ← hes]
              exact List.map_append

theorem frozen_afterCalls (supply : Anchors) (calls : List IndexCall) :
    (afterCalls supply calls).1.frozen = true ↔ IndexCall.freeze ∈ calls := by
  induction calls using List.reverseRecOn with
  | nil => exact iff_of_false Bool.false_ne_true List.not_mem_nil
  | append_singleton calls call ih =>
      rw [afterCalls, List.foldl_append, List.foldl_cons, List.foldl_nil, List.mem_append, List.mem_singleton]
      cases call with
      | freeze => exact iff_of_true rfl (.inr rfl)
      | register s doc =>
          have hstep := (inStep_afterCalls supply calls).registers (afterCalls supply calls).2 s doc
          have hkept : ((afterCalls supply calls).1.register (afterCalls supply calls).2 s doc).index.frozen =
              (afterCalls supply calls).1.frozen := by
            generalize TabledIndex.register _ _ _ _ = r at hstep
            cases hstep <;> rfl
          change ((afterCalls supply calls).1.register (afterCalls supply calls).2 s doc).index.frozen = true ↔ _
          rw [hkept, ih]
          simp

/-- The laws of an index. After any calls from an empty index on, the look-ups through its tables answer as the
list of registered functions says, which are the first valid ones of every overload given before the index was
frozen. One more function is registered just when the index is open and the overload valid and new; what is
refused changes nothing, and a duplicate is refused with the entry that is there. -/
theorem laws_afterCalls (supply : Anchors) (calls : List IndexCall) :
    (afterCalls supply calls).1.LookUpLaws ∧
      (afterCalls supply calls).1.entries.map Documented.unanchored =
        (Documented.firsts (IndexCall.given calls)).map Documented.unanchored ∧
      ((afterCalls supply calls).1.frozen = true ↔ IndexCall.freeze ∈ calls) ∧
      ∀ supply' s doc, (afterCalls supply calls).1.RegisterLaws supply' s doc
        ((afterCalls supply calls).1.register supply' s doc) := by
  have hin := inStep_afterCalls supply calls
  refine ⟨hin.lookUpLaws, ?_, frozen_afterCalls supply calls, hin.registerLaws⟩
  have hnone : ([] : List Documented).map Documented.unanchored =
      (Documented.firsts []).map Documented.unanchored := rfl
  exact InStep.empty.entries_foldl rfl hnone supply calls

/-- A scalar type called `vector` has the text of the vector type and still finds nothing. -/
example :
    let s : Signature := { name := "f", params := [{ type := .vector }], anchor := "a" }
    let t := (afterCalls {} [.register (some s) none, .register none none]).1
    t.find? "f" [.vector] = some s ∧ t.find? "f" [.primitive "vector"] = none := by
  decide +kernel

end TabledIndex

end OverloadDocs
