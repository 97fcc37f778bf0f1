/-!
Path patterns: a star is a run without separators, two stars any run, a question mark one character
that is no separator; brackets hold a list or a range of characters, which an exclamation mark negates;
braces hold alternatives, and a backslash takes the next character as it is. A null character ends a
pattern where a part may begin; inside ordinary text it only divides it.
-/

namespace OverloadDocs.Glob

/-- A part of a path pattern. -/
inductive Part where
  | text (s : List Char)
  | run
  | anything
  | one
  | listed (negated : Bool) (chars : List Char)
  | ranged (negated : Bool) (lo hi : Char)
  | nothing
  | sequence (parts : List Part)
  | choice (alternatives : List Part)
  deriving Inhabited

/-- What can be wrong with a path pattern. -/
inductive PathError where
  | unexpectedEnd
  | emptyRange
  | unclosedRange
  | descendingRange (lo hi : Char)
  | unreadable
  deriving DecidableEq

def PathError.message : PathError → String
  | .unexpectedEnd => "unexpected end of input"
  | .emptyRange => "could not parse range"
  | .unclosedRange => "expected close range character"
  | .descendingRange lo hi => s!"hi character '{hi}' should be greater than lo '{lo}'"
  | .unreadable => "could not read rune"

/-- A character that ends brackets before they are closed. -/
def endsPattern (c : Char) : Bool := c == '\x00' || c == '\ufffd'

/-- The characters listed up to the closing bracket, and the text from there on. A null character ends
the list too. -/
def listedChars : List Char → List Char × List Char
  | [] => ([], [])
  | ['\\'] => ([], [])
  | '\\' :: c :: cs =>
    if c = '\x00' then ([], cs)
    else if c = '\ufffd' then ([], c :: cs)
    else (c :: (listedChars cs).1, (listedChars cs).2)
  | c :: cs =>
    if c = '\x00' then ([], cs)
    else if c = ']' ∨ c = '\ufffd' then ([], c :: cs)
    else (c :: (listedChars cs).1, (listedChars cs).2)

def closeBrackets : List Char → Except PathError (List Char)
  | [] => .error .unexpectedEnd
  | c :: rest =>
    if endsPattern c then .error .unexpectedEnd
    else if c = ']' then .ok rest
    else .error .unclosedRange

/-- Reads brackets after the opening one and the negation. -/
def readBrackets (negated : Bool) (cs : List Char) : Except PathError (Part × List Char) :=
  match cs with
  | [] => .error .unexpectedEnd
  | lo :: more =>
    if endsPattern lo then .error .unexpectedEnd
    else
      match more with
      | '-' :: [] => .error .unexpectedEnd
      | '-' :: hi :: more =>
        if endsPattern hi then .error .unexpectedEnd
        else
          match closeBrackets more with
          | .error e => .error e
          | .ok rest => if hi < lo then .error (.descendingRange lo hi) else .ok (.ranged negated lo hi, rest)
      | _ =>
        let (chars, more) := listedChars cs
        match closeBrackets more with
        | .error e => .error e
        | .ok rest => if chars.isEmpty then .error .emptyRange else .ok (.listed negated chars, rest)

/-- Reads brackets after the opening one. -/
def readRange (cs : List Char) : Except PathError (Part × List Char) :=
  match cs with
  | '!' :: cs => readBrackets true cs
  | cs => readBrackets false cs

/-- A character that ends ordinary text; inside braces, there are more. -/
def endsText (inBraces : Bool) (c : Char) : Bool :=
  c == '?' || c == '*' || c == '[' || c == '{' || (inBraces && (c == '}' || c == ','))

/-- Reads ordinary text, and says what follows it. -/
def readText (inBraces : Bool) : List Char → Except PathError (List Char × List Char)
  | [] => .ok ([], [])
  | ['\\'] => .ok ([], [])
  | '\\' :: c :: cs =>
    if c = '\x00' then .ok ([], cs)
    else if c = '\ufffd' then .error .unreadable
    else (readText inBraces cs).map fun (text, rest) => (c :: text, rest)
  | c :: cs =>
    if c = '\x00' then .ok ([], cs)
    else if c = '\ufffd' then .error .unreadable
    else if endsText inBraces c then .ok ([], c :: cs)
    else (readText inBraces cs).map fun (text, rest) => (c :: text, rest)

/-- Alternatives that are being read: those already complete, and the parts of the one at hand, both
in reverse. -/
structure Alternatives where
  complete : List Part := []
  parts : List Part := []

/-- Adds a part to the alternative at hand. -/
def Alternatives.add (a : Alternatives) (p : Part) : Alternatives := { a with parts := p :: a.parts }

/-- Completes the alternative at hand and starts another. -/
def Alternatives.next (a : Alternatives) : Alternatives := ⟨.sequence a.parts.reverse :: a.complete, []⟩

/-- The part that matches any of the alternatives. -/
def Alternatives.close (a : Alternatives) : Part := .choice a.next.complete.reverse

/-- The pattern when the text ends inside alternatives, innermost first: they end with it. -/
def closeAll (inner : Alternatives) : List Alternatives → List Part
  | [] => inner.parts.reverse
  | around :: outer => closeAll (around.add inner.close) outer

/-- Reads a pattern with the alternatives that are open around it, innermost first. The fuel is never
short when it is the length of the text. -/
def readParts (fuel : Nat) (inner : Alternatives) (outer : List Alternatives) (cs : List Char) :
    Except PathError (List Part) :=
  match fuel, cs with
  | 0, _ => .ok (closeAll inner outer)
  | _, [] => .ok (closeAll inner outer)
  | fuel + 1, c :: cs =>
    if c = '\x00' then .ok (closeAll inner outer)
    else if c = '{' then readParts fuel {} (inner :: outer) cs
    else if c == ',' && !outer.isEmpty then readParts fuel inner.next outer cs
    else if c = '[' then
      match readRange cs with
      | .error e => .error e
      | .ok (p, rest) => readParts fuel (inner.add p) outer rest
    else if c = '?' then readParts fuel (inner.add .one) outer cs
    else if c = '*' then
      match cs with
      | '*' :: cs => readParts fuel (inner.add .anything) outer cs
      | cs => readParts fuel (inner.add .run) outer cs
    else
      match c, outer with
      | '}', around :: outer => readParts fuel (around.add inner.close) outer cs
      | c, outer =>
        match readText (!outer.isEmpty) (c :: cs) with
        | .error e => .error e
        | .ok (text, rest) =>
          readParts fuel (if text.isEmpty then inner else inner.add (.text text)) outer rest

def partsOf (text : String) : Except PathError (List Part) :=
  let cs := text.toList
  readParts cs.length {} [] cs

end OverloadDocs.Glob
