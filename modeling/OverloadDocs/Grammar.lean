import OverloadDocs.Query
import OverloadDocs.SyntaxError
import OverloadDocs.Text.Blank

/-!
The grammar of types, signatures and queries, read from tokens. A reader takes a value off the front
of a token list and says what follows it; a failure says what was wanted and which tokens were left,
the first of them being the one that did not fit.
-/

namespace OverloadDocs

namespace Grammar

/-- Where reading stopped: what was wanted, and the tokens that were left. -/
structure Failure where
  expected : Expectation
  rest : List Token
  deriving DecidableEq

/-- A value read from the front of some tokens, and the tokens that follow it. -/
structure Reading (α : Type) (input : List Token) where
  value : α
  rest : List Token
  shorter : rest.length < input.length

def isComma (t : Token) : Bool := t.lexeme = .comma

/-- Whether a closing parenthesis comes next. -/
def closes : List Token → Bool
  | ⟨.closeParen, _⟩ :: _ => true
  | _ => false

/-- Reads the brackets of an array type. Dimensions are counted by their commas, not sized. -/
def readDimensions (input : List Token) : Except Failure (Reading Int input) :=
  match input with
  | ⟨.openBracket, _⟩ :: ts =>
    match h : ts.dropWhile isComma with
    | ⟨.closeBracket, _⟩ :: rest =>
      .ok ⟨(ts.takeWhile isComma).length + 1, rest, by
        have := (List.dropWhile_suffix isComma (l := ts)).length_le
        rw [h] at this
        simp only [List.length_cons] at this ⊢
        omega⟩
    | rest => .error ⟨.dimensions, rest⟩
  | rest => .error ⟨.openBracket, rest⟩

mutual

def readType (input : List Token) : Except Failure (Reading TypeExpr input) :=
  match input with
  | ⟨.ident name, _⟩ :: ts =>
    if name = "array" then
      match readDimensions ts with
      | .error e => .error e
      | .ok ⟨dims, rest, _⟩ =>
        match readType rest with
        | .error e => .error e
        | .ok ⟨elem, rest', _⟩ =>
          .ok ⟨.array dims elem, rest', by simp only [List.length_cons]; omega⟩
    else if name = "tuple" then
      match ts with
      | ⟨.openParen, _⟩ :: us =>
        if closes us then .error ⟨.tupleElement, us⟩
        else
          match readElements us with
          | .error e => .error e
          | .ok ⟨elems, rest, _⟩ => .ok ⟨.tuple elems, rest, by simp only [List.length_cons]; omega⟩
      | rest => .error ⟨.openParen, rest⟩
    else if name = "vector" then .ok ⟨.vector, ts, Nat.lt_succ_self _⟩
    else if name = "row_vector" then .ok ⟨.rowVector, ts, Nat.lt_succ_self _⟩
    else if name = "matrix" then .ok ⟨.matrix, ts, Nat.lt_succ_self _⟩
    else .ok ⟨.primitive name, ts, Nat.lt_succ_self _⟩
  | rest => .error ⟨.type, rest⟩
termination_by 2 * input.length
decreasing_by all_goals simp only [List.length_cons]; omega

def readElements (input : List Token) : Except Failure (Reading (List TypeExpr) input) :=
  match readType input with
  | .error e => .error e
  | .ok ⟨elem, rest, h⟩ =>
    match rest, h with
    | ⟨.comma, _⟩ :: ts, h =>
      match readElements ts with
      | .error e => .error e
      | .ok ⟨elems, rest', _⟩ =>
        .ok ⟨elem :: elems, rest', by simp only [List.length_cons] at h; omega⟩
    | ⟨.closeParen, _⟩ :: ts, h => .ok ⟨[elem], ts, by simp only [List.length_cons] at h; omega⟩
    | rest, _ => .error ⟨.closeParen, rest⟩
termination_by 2 * input.length + 1
decreasing_by
  · omega
  · simp only [List.length_cons] at h
    omega

end

/-- Reads the name of a parameter, which may be left out. -/
def readParamName (input : List Token) :
    Except Failure { r : String × List Token // r.2.length ≤ input.length } :=
  match input with
  | ⟨.ident name, _⟩ :: rest =>
    if TypeExpr.isKeyword name then .error ⟨.parameterName, input⟩
    else .ok ⟨(name, rest), Nat.le_succ _⟩
  | rest => .ok ⟨("", rest), Nat.le_refl _⟩

/-- Reads the parameters of a list that is not empty, up to its closing parenthesis. -/
def readParams (input : List Token) : Except Failure (Reading (List Parameter) input) :=
  match readType input with
  | .error e => .error e
  | .ok ⟨type, afterType, _⟩ =>
    match readParamName afterType with
    | .error e => .error e
    | .ok ⟨(name, rest), h⟩ =>
      match rest, h with
      | ⟨.comma, _⟩ :: ts, h =>
        match readParams ts with
        | .error e => .error e
        | .ok ⟨params, rest', _⟩ =>
          .ok ⟨⟨name, type⟩ :: params, rest', by simp only [List.length_cons] at h; omega⟩
      | ⟨.closeParen, _⟩ :: ts, h =>
        .ok ⟨[⟨name, type⟩], ts, by simp only [List.length_cons] at h; omega⟩
      | rest, _ => .error ⟨.closeParen, rest⟩
termination_by input.length
decreasing_by simp only [List.length_cons] at h; omega

def readParamList (input : List Token) : Except Failure (Reading (List Parameter) input) :=
  match input with
  | ⟨.openParen, _⟩ :: ts =>
    if closes ts then .ok ⟨[], ts.tail, by simp only [List.length_cons, List.length_tail]; omega⟩
    else
      match readParams ts with
      | .error e => .error e
      | .ok ⟨params, rest, _⟩ => .ok ⟨params, rest, by simp only [List.length_cons]; omega⟩
  | rest => .error ⟨.openParen, rest⟩

/-- Refuses tokens that are left over. -/
def finish : List Token → Except Failure Unit
  | [] => .ok ()
  | rest => .error ⟨.nothing, rest⟩

def wholeType (input : List Token) : Except Failure TypeExpr := do
  let type ← readType input
  finish type.rest
  return type.value

def wholeSignature (input : List Token) : Except Failure Signature := do
  let type ← readType input
  match type.rest with
  | ⟨.ident name, _⟩ :: ts =>
    if TypeExpr.isKeyword name then throw ⟨.functionName, type.rest⟩
    let params ← readParamList ts
    finish params.rest
    return ⟨name, params.value, type.value, 0, {}, ""⟩
  | rest => throw ⟨.identifier, rest⟩

/-- Reads a query and nothing after it. Parameter names are accepted and dropped, and a keyword can
be asked for like any other name. -/
def wholeQuery (input : List Token) : Except Failure Query := do
  match input with
  | ⟨.ident name, _⟩ :: ts =>
    match ts with
    | ⟨.openParen, _⟩ :: _ =>
      let params ← readParamList ts
      finish params.rest
      return ⟨name, some (params.value.map (·.type))⟩
    | _ =>
      finish ts
      return ⟨name, none⟩
  | rest => throw ⟨.identifier, rest⟩

def Failure.report (text : String) (f : Failure) : SyntaxError where
  text := text
  offset := match f.rest with
    | [] => text.utf8ByteSize
    | t :: _ => t.offset
  expected := f.expected
  found := f.rest.head?.map (·.lexeme)

def parseWith (read : List Token → Except Failure α) (text : String) : Except SyntaxError α :=
  (read (Token.scan text)).mapError (Failure.report text)

end Grammar

def TypeExpr.parse (text : String) : Except SyntaxError TypeExpr :=
  Grammar.parseWith Grammar.wholeType text

/-- The signature that a text declares, at a given position among the declarations. -/
def Signature.parse (text : String) (order : Int) : Except SyntaxError Signature :=
  (Grammar.parseWith Grammar.wholeSignature text).map fun s => { s with order := order }

def Query.parse (text : String) : Except SyntaxError Query :=
  Grammar.parseWith Grammar.wholeQuery text

/-- The queries of a member list, which semicolons separate. Blank entries are skipped, and offsets
in errors count from the start of the entry. -/
def Query.parseMembers (text : String) : Except SyntaxError (List Query) :=
  let entries := (text.toList.splitOn ';').map Text.trim
  (entries.filter (· ≠ [])).mapM fun entry => Query.parse (String.ofList entry)

/-- The declarations of one file, read one after the other: the file and the position that the next
declaration receives. -/
structure DeclarationReader where
  file : String
  order : Int := 0

/-- Reads one declaration that stands at a line. The position advances only on success. -/
def DeclarationReader.read (r : DeclarationReader) (text : String) (line : Int) :
    Except SyntaxError Signature × DeclarationReader :=
  match Signature.parse text r.order with
  | .error e => (.error { e with source := { file := r.file, line := line } }, r)
  | .ok s =>
    (.ok { s with source := { file := r.file, line := line } }, { r with order := r.order + 1 })

end OverloadDocs
