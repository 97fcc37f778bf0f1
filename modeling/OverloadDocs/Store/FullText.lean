import OverloadDocs.Text.Blank
import OverloadDocs.Text.SearchWord

/-!
Full-text search. A query is a list of quoted terms, so that nothing in it is taken for an operator;
every term has to be found, as consecutive words inside one column. Rows are scored by how rare the
terms are and how often they occur, with a weight for each column.
-/

namespace OverloadDocs.FullText

/-- A term of a query; a starred one also matches words that begin with its last word. -/
structure Term where
  text : List Char
  starred : Bool
  deriving DecidableEq

/-- The term of a word: trailing stars mark it, and stars alone make no term. -/
def Term.ofWord? (word : List Char) : Option Term :=
  let text := Text.dropEndWhile (· == '*') word
  if text = [] then none else some ⟨text, word.getLast? == some '*'⟩

/-- The terms of a query. -/
def terms (query : String) : List Term := (Text.words query.toList).filterMap Term.ofWord?

/-- The text of a term: quoted, with quotes doubled, and a star if it is starred. -/
def Term.render (t : Term) : List Char :=
  '"' :: t.text.flatMap (fun c => if c = '"' then ['"', '"'] else [c]) ++
    '"' :: (if t.starred then ['*'] else [])

def renderQuery (query : String) : String :=
  String.ofList (Text.joinWith [' '] ((terms query).map Term.render))

/-- Whether some words begin with a phrase; the last word of a starred phrase may go on. -/
def beginsWith (starred : Bool) : List (List Char) → List (List Char) → Bool
  | [], _ => true
  | [last], word :: _ => if starred then last.isPrefixOf word else last == word
  | w :: phrase, word :: words => w == word && beginsWith starred phrase words
  | _ :: _, [] => false

def occurrences (starred : Bool) (phrase : List (List Char)) : List (List Char) → Nat
  | [] => 0
  | word :: words =>
    (if beginsWith starred phrase (word :: words) then 1 else 0) + occurrences starred phrase words

/-- A searchable row: the words of its name, its signature and its summary. -/
structure Row where
  name : List (List Char)
  signature : List (List Char)
  summary : List (List Char)

/-- Whether a query ends inside a term, which it does where one holds the character that ends a text. -/
def endsEarly (query : String) : Bool := (terms query).any (·.text.contains '\x00')

def Row.ofTexts (name signature summary : String) : Row :=
  ⟨Text.searchWords name.toList, Text.searchWords signature.toList, Text.searchWords summary.toList⟩

def Row.size (r : Row) : Nat := r.name.length + r.signature.length + r.summary.length

/-- The words of a term that are searched for. -/
structure Phrase where
  words : List (List Char)
  starred : Bool

/-- The phrases of a query; a term without words is ignored. -/
def phrases (query : String) : List Phrase :=
  ((terms query).map fun t => ⟨Text.searchWords t.text, t.starred⟩).filter fun p => !p.words.isEmpty

/-- Whether a phrase occurs in a row. -/
def Row.holds (r : Row) (p : Phrase) : Bool :=
  [r.name, r.signature, r.summary].any fun column => occurrences p.starred p.words column > 0

/-- Whether a row is found by a query: it holds every phrase, and there is one. -/
def Row.isFound (r : Row) (ps : List Phrase) : Bool := !ps.isEmpty && ps.all r.holds

/-- The weighted number of occurrences of a phrase in a row. -/
def Row.frequency (r : Row) (p : Phrase) : Float :=
  let count (column : List (List Char)) := Float.ofNat (occurrences p.starred p.words column)
  count r.name * 10 + count r.signature * 5 + count r.summary

/-- How much finding a phrase counts, by the number of rows that hold it. -/
def rarity (rows holding : Nat) : Float :=
  let weight :=
    Float.log ((Float.ofNat rows - Float.ofNat holding + 0.5) / (Float.ofNat holding + 0.5))
  if weight ≤ 0 then 1e-6 else weight

/-- What rows are scored against: how much each phrase of a query counts, and the mean size of all rows. -/
structure Measure where
  weights : List (Phrase × Float)
  average : Float

/-- What all rows give for the phrases of a query. -/
def Measure.of (all : List Row) (ps : List Phrase) : Measure where
  weights := ps.map fun p => (p, rarity all.length (all.countP (·.holds p)))
  average := Float.ofNat (all.foldl (fun n r => n + r.size) 0) / Float.ofNat all.length

/-- The score of a row, zero or below; lower is better. -/
def Measure.score (m : Measure) (r : Row) : Float :=
  let size := Float.ofNat r.size
  let weighed (p : Phrase) (weight : Float) :=
    let frequency := r.frequency p
    weight * ((frequency * (1.2 + 1.0)) / (frequency + 1.2 * (1 - 0.75 + 0.75 * size / m.average)))
  Float.neg (m.weights.foldl (fun total (p, weight) => total + weighed p weight) 0)

end OverloadDocs.FullText
