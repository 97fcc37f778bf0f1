import OverloadDocs.Text.Utf8

/-!
Matchers: what path patterns are turned into before they are used. A matcher says whether it matches the
whole of a text, and where in a text it matches first. Texts are taken as bytes, while the width of a
matcher counts characters; a row of matchers gives each as many bytes as it takes for the last of its
characters to begin.
-/

namespace OverloadDocs.Glob

open Text (Bytes)

/-- A matcher. The widths of a split are those that its parts had when it was put together. -/
inductive Matcher where
  | run (separators : List Char)
  | anything
  | one (separators : List Char)
  | listed (negated : Bool) (chars : List Char)
  | ranged (negated : Bool) (lo hi : Char)
  | nothing
  | text (s : Bytes)
  | holds (negated : Bool) (s : Bytes)
  | atLeast (count : Nat)
  | atMost (count : Nat)
  | starts (s : Bytes)
  | ends (s : Bytes)
  | startsThenRun (s : Bytes) (separators : List Char)
  | runThenEnds (separators : List Char) (s : Bytes)
  | startsAndEnds (s t : Bytes)
  | every (matchers : List Matcher)
  | anyOf (matchers : List Matcher)
  | row (width : Nat) (matchers : List Matcher)
  | split (value : Matcher) (left right : Option Matcher) (leftWidth rightWidth width : Option Nat)
  deriving Inhabited

/-- A matcher that reads past the end of a text breaks off. -/
inductive Overrun where
  | overrun
  deriving DecidableEq

def Overrun.message : Overrun → String
  | .overrun => "pattern reads past the end of a path"

/-- Where a matcher matches: at an offset, with each of some lengths. -/
structure Place where
  offset : Nat
  lengths : List Nat

/-- The width that several agree on. Those without one do not count until the first that has one. -/
def agreedWidth : Option Nat → List (Option Nat) → Option Nat
  | width, [] => width
  | none, w :: ws => agreedWidth w ws
  | some _, none :: _ => none
  | some n, some k :: ws => if n = k then agreedWidth (some n) ws else none

/-- The lengths of the texts that end before each character or at the end, from an offset on. -/
def prefixLengths (offset : Nat) (s : Bytes) : List Nat :=
  (Text.charsOf s).map (fun (i, _) => offset + i) ++ [offset + s.length]

/-- The lengths of the texts that end after each character, from an offset on. -/
def lengthsAfter (offset : Nat) (s : Bytes) : List Nat :=
  (Text.charsOf s).map fun (i, c) => offset + i + c.utf8Size

/-- Merges increasing lengths. -/
def mergeLengths : List Nat → List Nat → List Nat
  | [], ys => ys
  | xs, [] => xs
  | x :: xs, y :: ys =>
    if x = y then x :: mergeLengths xs ys
    else if x < y then x :: mergeLengths xs (y :: ys)
    else y :: mergeLengths (x :: xs) ys
termination_by xs ys => xs.length + ys.length

/-- The earlier of two places; places with the same offset are one. -/
def Place.earlier : Option Place → Option Place → Option Place
  | none, q => q
  | p, none => p
  | some p, some q =>
    if q.offset < p.offset then some q
    else if p.offset < q.offset then some p
    else some ⟨p.offset, mergeLengths p.lengths q.lengths⟩

/-- The place of bytes that are found, with one length. -/
def placeOf (s t : Bytes) (length : Nat) : Option Place := (Text.indexOf? s t).map fun i => ⟨i, [length]⟩

/-- The place of the first character of a class. -/
def placeOfChar (p : Char → Bool) (s : Bytes) : Option Place :=
  ((Text.charsOf s).find? fun (_, c) => p c).map fun (i, c) => ⟨i, [c.utf8Size]⟩

/-- Whether a text has one character at most, which is of a class; without one, a replacement character
is looked at. -/
def isOneChar (p : Char → Bool) (s : Bytes) : Bool :=
  match Text.charsOf s with
  | [] => p Text.replacement
  | [(_, c)] => p c
  | _ => false

def inRange (lo hi c : Char) : Bool := lo ≤ c && c ≤ hi

/-- The lengths of the endings of a text that are bytes, each found before the one after it, shortest
first. -/
def endings (fuel : Nat) (ending : Bytes) (found : List Nat) (s : Bytes) : List Nat :=
  match fuel with
  | 0 => found
  | fuel + 1 =>
    match Text.lastIndexOf? ending s with
    | none => found
    | some i => endings fuel ending ((i + ending.length) :: found) (s.take i)

/-- Cuts a text for a matcher in a row: before the end of the last character of its width, after the
first byte of that character. A matcher without width is given all, but something has to be there. -/
def cutForRow (width : Nat) (s : Bytes) : Except Overrun (Option (Bytes × Bytes)) :=
  let chars := Text.charsOf s
  if width = 0 then
    match chars.getLast? with
    | none => .error .overrun
    | some (i, _) => .ok (some (s.take (i + 1), s.drop (i + 1)))
  else
    match chars[width - 1]? with
    | none => .ok none
    | some (i, _) => .ok (some (s.take (i + 1), s.drop (i + 1)))

/-- The first of the offsets from which a row matches the beginning of the rest, as long as the rest has as
many bytes as the row has characters. -/
def findRow (width : Nat) (matchesAt : Bytes → Except Overrun Bool) (s : Bytes) :
    List Nat → Except Overrun (Option Place)
  | [] => .ok none
  | i :: offsets =>
    if (s.drop i).length < width then .ok none
    else do
      if ← matchesAt (s.drop i) then return some ⟨i, [width]⟩ else findRow width matchesAt s offsets

/-- Whether one of some lengths, the last first, leaves a text that matches. -/
def someRest (right : Bytes → Except Overrun Bool) (s : Bytes) : List Nat → Except Overrun Bool
  | [] => .ok false
  | length :: lengths => do
    if ← right (s.drop length) then return true else someRest right s lengths

/-- Looks for a value from an offset on, up to a limit, so that what is left and right of it matches. -/
def searchSplit (fuel : Nat) (find : Bytes → Except Overrun (Option Place))
    (left right : Bytes → Except Overrun Bool) (s : Bytes) (limit offset : Nat) : Except Overrun Bool :=
  match fuel with
  | 0 => .ok false
  | fuel + 1 =>
    if offset < limit then do
      match ← find ((s.take limit).drop offset) with
      | none => return false
      | some place =>
        let start := offset + place.offset
        let found ←
          if ← left (s.take start) then someRest right (s.drop start) place.lengths.reverse else pure false
        if found then return true
        else searchSplit fuel find left right s limit (start + Text.firstWidth (s.drop start))
    else .ok false

namespace Matcher

/-- How many characters a matcher takes, if that is known. -/
def width : Matcher → Option Nat
  | .one _ => some 1
  | .listed _ _ => some 1
  | .ranged _ _ _ => some 1
  | .nothing => some 0
  | .text s => some (Text.charsOf s).length
  | .every [] => some 0
  | .anyOf matchers => agreedWidth none (widths matchers)
  | .row width _ => some width
  | .split _ _ _ _ _ width => width
  | _ => none
where
  /-- How many characters each of several matchers takes. -/
  widths : List Matcher → List (Option Nat)
    | [] => []
    | m :: ms => m.width :: widths ms

mutual

/-- Whether a matcher matches the whole of a text. -/
def matches? : Matcher → Bytes → Except Overrun Bool
  | .run separators, s => .ok (Text.indexOfAny? separators s).isNone
  | .anything, _ => .ok true
  | .one separators, s => .ok (isOneChar (fun c => !separators.contains c) s)
  | .listed negated chars, s => .ok (isOneChar (fun c => chars.contains c != negated) s)
  | .ranged negated lo hi, s => .ok (isOneChar (fun c => inRange lo hi c != negated) s)
  | .nothing, s => .ok s.isEmpty
  | .text t, s => .ok (s == t)
  | .holds negated t, s => .ok ((Text.indexOf? t s).isSome != negated)
  | .atLeast count, s => .ok (0 < (Text.charsOf s).length && count ≤ (Text.charsOf s).length)
  | .atMost count, s => .ok ((Text.charsOf s).length ≤ count)
  | .starts t, s => .ok (t.isPrefixOf s)
  | .ends t, s => .ok (t.isSuffixOf s)
  | .startsThenRun t separators, s =>
    .ok (t.isPrefixOf s && (Text.indexOfAny? separators (s.drop t.length)).isNone)
  | .runThenEnds separators t, s =>
    .ok (t.isSuffixOf s && (Text.indexOfAny? separators (s.take (s.length - t.length))).isNone)
  | .startsAndEnds t u, s => .ok (t.isPrefixOf s && u.isSuffixOf s)
  | .every matchers, s => allMatch? matchers s
  | .anyOf matchers, s => someMatches? matchers s
  | .row width matchers, s => if (Text.charsOf s).length = width then rowMatches? matchers s else .ok false
  | .split value left right leftWidth rightWidth width, s =>
    if (width.map fun w => decide (s.length < w)).getD false then .ok false
    else
      searchSplit (s.length + 1) (fun t => value.find? t) (fun t => partMatches? left t)
        (fun t => partMatches? right t) s (s.length - rightWidth.getD 0) (leftWidth.getD 0)

/-- Whether a part of a split matches; without a matcher it has to be empty. -/
def partMatches? : Option Matcher → Bytes → Except Overrun Bool
  | none, s => .ok s.isEmpty
  | some m, s => m.matches? s

def allMatch? : List Matcher → Bytes → Except Overrun Bool
  | [], _ => .ok true
  | m :: ms, s => do
    if ← m.matches? s then allMatch? ms s else return false

def someMatches? : List Matcher → Bytes → Except Overrun Bool
  | [], _ => .ok false
  | m :: ms, s => do
    if ← m.matches? s then return true else someMatches? ms s

/-- Whether the matchers of a row match pieces at the front of a text. -/
def rowMatches? : List Matcher → Bytes → Except Overrun Bool
  | [], _ => .ok true
  | m :: ms, s => do
    match ← cutForRow (m.width.getD 0) s with
    | none => return false
    | some (piece, rest) => if ← m.matches? piece then rowMatches? ms rest else return false

/-- Where a matcher matches first in a text. A split is not looked for. -/
def find? : Matcher → Bytes → Except Overrun (Option Place)
  | .run separators, s =>
    match Text.indexOfAny? separators s with
    | some i => .ok (some ⟨0, if i = 0 then [0] else prefixLengths 0 (s.take i)⟩)
    | none => .ok (some ⟨0, prefixLengths 0 s⟩)
  | .anything, s => .ok (some ⟨0, prefixLengths 0 s⟩)
  | .one separators, s => .ok (placeOfChar (fun c => !separators.contains c) s)
  | .listed negated chars, s => .ok (placeOfChar (fun c => chars.contains c != negated) s)
  | .ranged negated lo hi, s => .ok (placeOfChar (fun c => inRange lo hi c != negated) s)
  | .nothing, _ => .ok (some ⟨0, [0]⟩)
  | .text t, s => .ok (placeOf t s t.length)
  | .holds false t, s =>
    .ok ((Text.indexOf? t s).map fun i =>
      let after := i + t.length
      if s.length ≤ after then ⟨0, [after]⟩ else ⟨0, prefixLengths after (s.drop after)⟩)
  | .holds true t, s =>
    .ok (some ⟨0, prefixLengths 0 (((Text.indexOf? t s).map s.take).getD s)⟩)
  | .atLeast count, s =>
    let lengths := (lengthsAfter 0 s).drop (count - 1)
    .ok (if s.length < count || lengths.isEmpty then none else some ⟨0, lengths⟩)
  | .atMost count, s => .ok (some ⟨0, 0 :: (lengthsAfter 0 s).take count⟩)
  | .starts t, s =>
    .ok ((Text.indexOf? t s).map fun i => ⟨i, t.length :: lengthsAfter t.length (s.drop (i + t.length))⟩)
  | .ends t, s => .ok ((Text.indexOf? t s).map fun i => ⟨0, [i + t.length]⟩)
  | .startsThenRun t separators, s =>
    .ok ((Text.indexOf? t s).map fun i =>
      let rest := s.drop (i + t.length)
      let rest := ((Text.indexOfAny? separators rest).map rest.take).getD rest
      ⟨i, t.length :: lengthsAfter t.length rest⟩)
  | .runThenEnds separators t, s =>
    .ok ((Text.indexOf? t s).map fun i =>
      let start := ((Text.lastIndexOfAny? separators (s.take i)).map (· + 1)).getD 0
      ⟨start, [i + t.length - start]⟩)
  | .startsAndEnds t u, s =>
    .ok ((Text.indexOf? t s).bind fun i =>
      let rest := s.drop i
      if u.isEmpty then some ⟨i, [rest.length]⟩
      else
        let lengths := endings (rest.length + 1) u [] rest
        if lengths.isEmpty then none else some ⟨i, lengths⟩)
  | .every matchers, s => findEvery? matchers none 0 s
  | .anyOf matchers, s => findSome? matchers none s
  | .row width matchers, s =>
    findRow width (fun t => rowMatches? matchers t) s ((Text.charsOf s).map (·.1))
  | .split _ _ _ _ _ _, _ => .ok none

def findSome? : List Matcher → Option Place → Bytes → Except Overrun (Option Place)
  | [], place, _ => .ok place
  | m :: ms, place, s => do
    let next ← m.find? s
    findSome? ms (Place.earlier place next) s

/-- Where all of several matchers match with the same end. The place before is that of the matchers that
have been looked at. -/
def findEvery? : List Matcher → Option Place → Nat → Bytes → Except Overrun (Option Place)
  | [], place, offset, _ => .ok (some ((place.getD ⟨offset, []⟩)))
  | m :: ms, place, offset, s => do
    match ← m.find? s with
    | none => return none
    | some next =>
      let start := offset + next.offset
      let lengths := match place with
        | none => next.lengths
        | some before =>
          before.lengths.flatMap fun x => next.lengths.filter fun y => x == y + next.offset
      if place.isSome && lengths.isEmpty then return none
      else findEvery? ms (some ⟨start, lengths⟩) start (s.drop next.offset)

end

def matchesText? (m : Matcher) (text : String) : Except Overrun Bool := m.matches? (Text.bytesOf text)

end Matcher

end OverloadDocs.Glob
