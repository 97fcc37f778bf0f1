import OverloadDocs.Text.Base64
import OverloadDocs.Yaml.Basic
import OverloadDocs.Yaml.Node

/-!
The values of nodes. Aliases are expanded, as long as they do not make up nearly all of a large document.
The maps under the merge key of a map add the entries whose keys are not there yet, earlier ones first.
A node that does not fit where it stands is noted and left out, so that all of them are told together.
-/

namespace OverloadDocs.Yaml

/-- The short name of the tag that an unquoted scalar has by itself. -/
def Plain.tag : Plain → String
  | .null => "!!null"
  | .bool _ => "!!bool"
  | .int _ => "!!int"
  | .float _ => "!!float"
  | .timestamp => "!!timestamp"
  | .merge => "!!merge"
  | .text => "!!str"

/-- Whether a key of a general map can be the key of a map from texts. -/
def Plain.isTextual : Plain → Bool
  | .text => true
  | .merge => true
  | _ => false

def Plain.value (text : String) : Plain → Yaml
  | .null => .null
  | .bool b => .bool b
  | .int n => .int n
  | .float x => .float x
  | .timestamp => .timestamp text
  | .merge => .str text
  | .text => .str text

/-- The value of a scalar under the short name of a tag. A standard tag has to fit, a whole number being a
number too; under any other tag a scalar is a text. -/
def taggedValue (tag text : String) : Except YamlError Yaml :=
  let plain := Plain.ofUntimed text.toList
  let unfit : Except YamlError Yaml := .error (.unfitScalar plain.tag text tag)
  match tag, plain with
  | "!!str", _ => .ok (.str text)
  | "!!binary", _ =>
    match Text.base64Text? text.toList with
    | some s => .ok (.str s)
    | none => .error .invalidBase64
  | "!!null", .null => .ok .null
  | "!!null", _ => unfit
  | "!!bool", .bool b => .ok (.bool b)
  | "!!bool", _ => unfit
  | "!!int", .int n => .ok (.int n)
  | "!!int", _ => unfit
  | "!!float", .float x => .ok (.float x)
  | "!!float", .int n => if n < Nat.pow 2 63 then .ok (.float (Binary64.ofInt n)) else unfit
  | "!!float", _ => unfit
  | "!!timestamp", _ => if isTimestamp text.toList then .ok (.timestamp text) else unfit
  | _, _ => .ok (.str text)

def scalarValue (tag : Option String) (text : String) : Except YamlError Yaml :=
  match tag with
  | some tag => taggedValue tag text
  | none => .ok ((Plain.of text.toList).value text)

/-- A scalar as the key of a map. -/
inductive Key where
  | null
  | bool (b : Bool)
  | int (n : Int)
  | float (text : String)
  | timestamp (text : String)
  | str (s : String)
  deriving DecidableEq

/-- The key that a value is; collections are none. -/
def Key.of? : Yaml → Option Key
  | .null => some .null
  | .bool b => some (.bool b)
  | .int n => some (.int n)
  | .float x => some (.float x.render)
  | .timestamp text => some (.timestamp text)
  | .str s => some (.str s)
  | .seq _ => none
  | .map _ => none

def Key.render : Key → String
  | .null => ""
  | .bool b => if b then "true" else "false"
  | .int n => toString n
  | .float text => text
  | .timestamp text => text
  | .str s => s

mutual

def shown : Yaml → String
  | .null => "interface \x7b\x7d(nil)"
  | .bool b => if b then "true" else "false"
  | .int n => toString n
  | .float x => x.render
  | .timestamp text => text
  | .str s => Text.quoted s
  | .seq items => listType ++ "\x7b" ++ ", ".intercalate (shownItems items) ++ "\x7d"
  | .map entries => mapType true ++ "\x7b" ++ ", ".intercalate (shownEntries entries) ++ "\x7d"

def shownItems : List Yaml → List String
  | [] => []
  | item :: items => shown item :: shownItems items

def shownEntries : List (String × Yaml) → List String
  | [] => []
  | (key, value) :: entries => (Text.quoted key ++ ":" ++ shown value) :: shownEntries entries

end

namespace Node

def isMergeKey : Node → Bool
  | .scalar _ none text => text == mergeKey
  | .scalar _ (some tag) text => text == mergeKey && tag == "!!merge"
  | _ => false

/-- Whether other maps are merged into a map. -/
def hasMergeKey (entries : List (Node × Node)) : Bool := entries.any (·.1.isMergeKey)

/-- Whether a scalar is a text or a merge key. -/
def isTextual (tag : Option String) (text : String) : Bool :=
  match tag with
  | some tag => tag == textTag || tag == "!!merge"
  | none => (Plain.of text.toList).isTextual

/-- Whether a key is a text or a merge key. -/
def isTextKey : Node → Bool
  | .scalar _ tag text => isTextual tag text
  | .aliasOf _ _ (some (.scalar _ tag text)) => isTextual tag text
  | _ => false

/-- What tells the keys of a map apart: their kind and how they are written. -/
def written : Node → Nat × String
  | .scalar _ _ text => (0, text)
  | .aliasOf _ name _ => (1, name)
  | .seq _ _ => (2, "")
  | .map _ _ => (3, "")

def line : Node → Nat
  | .scalar line _ _ => line
  | .aliasOf line _ _ => line
  | .seq line _ => line
  | .map line _ => line

/-- The keys that stand in a map already before. -/
def repeats : List (Node × Node) → List Mismatch
  | [] => []
  | (key, _) :: entries =>
    (entries.filter fun e => e.1.written == key.written).map
      (fun e => .repeatedKey e.1.line key.written.2 key.line) ++ repeats entries

/-- How many nodes have been taken, how many of them under an alias, and which do not fit, the latest
first. -/
structure Expansion where
  all : Nat := 0
  shared : Nat := 0
  mismatches : List Mismatch := []

/-- Whether too much of a document comes from aliases. Of a large document 99 percent may, and the less the
larger it is. -/
def Expansion.isExcessive (e : Expansion) : Bool :=
  let low := 400000
  let high := 4000000
  let permitted := -- in parts of a hundred times the width of the range
    if e.all ≤ low then 99 * (high - low)
    else if high ≤ e.all then 10 * (high - low)
    else 99 * (high - low) - 89 * (e.all - low)
  100 < e.shared && 1000 < e.all && e.all * permitted < e.shared * 100 * (high - low)

/-- A step that takes values of nodes, unless they have none. -/
abbrev Taking := StateT Expansion (Except YamlError)

/-- Counts a node. -/
def tally (shared : Bool) : Taking Unit := do
  modify fun e => { e with all := e.all + 1, shared := if shared then e.shared + 1 else e.shared }
  if (← get).isExcessive then throw .excessiveAliases

/-- Notes nodes that do not fit, and says whether there are any. -/
def note (mismatches : List Mismatch) : Taking Bool := do
  modify fun e => { e with mismatches := mismatches.reverse ++ e.mismatches }
  return !mismatches.isEmpty

/-- Notes a node that does not fit. -/
def noteType (line : Nat) (tag : String) (text : Option String) (wanted : Wanted) : Taking Unit :=
  modify fun e => { e with mismatches := .otherType line tag text wanted :: e.mismatches }

/-- What the keys of a map have to be: texts, as which all scalars but null are taken, or anything; and
whether they are compared with the keys that are taken already. -/
structure KeyRule where
  texts : Bool
  compared : Bool

/-- The key that a scalar is, if it is one. -/
def scalarKey (rule : KeyRule) (tag : Option String) (text : String) : Except YamlError (Option Key) :=
  (scalarValue tag text).map fun
    | .null => if rule.texts then none else some .null
    | .str s => some (.str s)
    | value => if rule.texts then some (.str text) else Key.of? value

/-- Entries of a map that is put together, and the keys that are not to be put into it again. -/
structure Merging where
  entries : List (String × Yaml) := []
  taken : Option (List Key) := none

/-- Puts a value under a key. -/
def Merging.put (m : Merging) (key : Key) (value : Yaml) : Merging :=
  let name := key.render
  if m.entries.any (·.1 = name) then
    { m with entries := m.entries.map fun e => if e.1 = name then (name, value) else e }
  else { m with entries := m.entries ++ [(name, value)] }

/-- Whether a key is not to be put again. -/
def Merging.has (m : Merging) (key : Key) : Bool := (m.taken.map (·.contains key)).getD false

/-- Notes that a key is not to be put again, if other maps are merged. -/
def Merging.take (m : Merging) (key : Key) : Merging := { m with taken := m.taken.map (key :: ·) }

mutual

/-- The value of a node, if it fits. -/
def value (shared : Bool) : Node → Taking (Option Yaml)
  | .scalar _ tag text => do
    tally shared
    return some (← scalarValue tag text)
  | .seq _ items => do
    tally shared
    return some (.seq (← values shared items))
  | .map _ entries => do
    tally shared
    if ← note (repeats entries) then return none
    let texts := entries.all (·.1.isTextKey)
    let put ← putAll shared texts {} entries
    let own ← if hasMergeKey entries then ownKeys shared entries else pure []
    return some (.map (← mergeAll shared texts own put entries).entries)
  | .aliasOf _ name none => throw (.endlessAlias name)
  | .aliasOf _ _ (some target) => do
    tally shared
    value true target

def values (shared : Bool) : List Node → Taking (List Yaml)
  | [] => return []
  | item :: items => do
    let first ← value shared item
    let rest ← values shared items
    return first.toList ++ rest

/-- The key that a node is, if it fits. A collection is none. -/
def key (shared : Bool) (rule : KeyRule) : Node → Taking (Option Key)
  | .scalar _ tag text => do
    tally shared
    scalarKey rule tag text
  | .seq line items => do
    tally shared
    if rule.texts then
      noteType line "!!seq" none .text
      return none
    else
      let items ← values shared items
      throw (if rule.compared then .keyOfType listType else .collectionKey (shown (.seq items)))
  | .map line entries => do
    tally shared
    if ← note (repeats entries) then return none
    else if rule.texts then
      noteType line "!!map" none .text
      return none
    else
      let texts := entries.all (·.1.isTextKey)
      let put ← putAll shared texts {} entries
      let own ← if hasMergeKey entries then ownKeys shared entries else pure []
      let merged ← mergeAll shared texts own put entries
      throw (if rule.compared then .keyOfType (mapType texts) else .collectionKey (shown (.map merged.entries)))
  | .aliasOf _ name none => throw (.endlessAlias name)
  | .aliasOf _ _ (some target) => do
    tally shared
    key true rule target

/-- The keys of a map into which others are merged. -/
def ownKeys (shared : Bool) : List (Node × Node) → Taking (List Key)
  | [] => return []
  | (k, _) :: entries => do
    let first ← key shared ⟨false, true⟩ k
    let rest ← ownKeys shared entries
    return first.toList ++ rest

/-- Puts the entries of a map, except those under the merge key. -/
def putAll (shared texts : Bool) (m : Merging) : List (Node × Node) → Taking Merging
  | [] => return m
  | (k, v) :: entries => do
    if k.isMergeKey then putAll shared texts m entries
    else
      match ← key shared ⟨texts, m.taken.isSome⟩ k with
      | none => putAll shared texts m entries
      | some key =>
        if m.has key then putAll shared texts m entries
        else
          let m := m.take key
          match ← value shared v with
          | none => putAll shared texts m entries
          | some value => putAll shared texts (m.put key value) entries

/-- Merges what stands under the merge key of a map whose other entries have been put. Unless it is itself
merged into another map, its own keys are not put again. -/
def mergeAll (shared texts : Bool) (own : List Key) (m : Merging) : List (Node × Node) → Taking Merging
  | [] => return m
  | (k, v) :: entries => do
    if k.isMergeKey then
      let merged ← mergeNode shared texts { m with taken := some (m.taken.getD own) } v
      return { merged with taken := m.taken.bind fun _ => merged.taken }
    else mergeAll shared texts own m entries

/-- Merges a map, or the maps of a list. -/
def mergeNode (shared texts : Bool) (m : Merging) : Node → Taking Merging
  | .seq _ items => mergeItems shared texts m items
  | .map _ entries => do
    tally shared
    if ← note (repeats entries) then return m
    mergeAll shared texts [] (← putAll shared texts m entries) entries
  | .aliasOf _ _ (some (.map _ entries)) => do
    tally shared
    tally true
    if ← note (repeats entries) then return m
    mergeAll true texts [] (← putAll true texts m entries) entries
  | .aliasOf _ name none => throw (.endlessAlias name)
  | _ => throw .mergedOther

/-- Merges the maps of a list. -/
def mergeItems (shared texts : Bool) (m : Merging) : List Node → Taking Merging
  | [] => return m
  | .seq _ _ :: _ => throw .mergedOther
  | item :: items => do mergeItems shared texts (← mergeNode shared texts m item) items

end

/-- The entries of a document, which has to be a map or nothing. -/
def root (node : Node) : Taking (List (String × Yaml)) := do
  tally false
  match node with
  | .map _ entries =>
    tally false
    if ← note (repeats entries) then return []
    let put ← putAll false true {} entries
    let own ← if hasMergeKey entries then ownKeys false entries else pure []
    return (← mergeAll false true own put entries).entries
  | .seq line _ =>
    noteType line "!!seq" none .map
    return []
  | .scalar line tag text =>
    match ← scalarValue tag text with
    | .null => return []
    | _ =>
      noteType line (tag.getD (Plain.of text.toList).tag) (some text) .map
      return []
  | .aliasOf _ name _ => throw (.unknownAnchor name)

/-- The entries of a document, if all of it fits. -/
def rootEntries (node : Node) : Except YamlError (List (String × Yaml)) :=
  match (root node).run {} with
  | .error e => .error e
  | .ok (entries, e) => if e.mismatches.isEmpty then .ok entries else .error (.mismatches e.mismatches.reverse)

end Node

end OverloadDocs.Yaml
