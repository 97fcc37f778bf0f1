/-!
Texts as bytes. A byte that belongs to no character counts as a replacement character of its own.
-/

namespace OverloadDocs.Text

/-- A text as bytes, which may be cut inside a character. -/
abbrev Bytes := List UInt8

def bytesOfChars (cs : List Char) : Bytes := cs.flatMap String.utf8EncodeChar

def bytesOf (s : String) : Bytes := bytesOfChars s.toList

/-- Whether a byte goes on with a character. -/
def isFurtherByte (byte : UInt8) : Bool := 0x80 ≤ byte && byte < 0xc0

/-- The character at the front of bytes, and how many it has. -/
def charOfBytes? : Bytes → Option (Char × Nat)
  | [] => none
  | a :: rest =>
    let read (count lead least : Nat) : Option (Char × Nat) :=
      let used := (rest.take count).takeWhile isFurtherByte
      let n := used.foldl (fun n byte => 64 * n + byte.toNat % 64) lead
      if h : used.length = count ∧ least ≤ n ∧ n.isValidChar then some (Char.ofNatAux n h.2.2, count + 1)
      else none
    let lead := a.toNat
    if lead < 0x80 then read 0 lead 0
    else if 0xc0 ≤ lead ∧ lead < 0xe0 then read 1 (lead % 32) 0x80
    else if 0xe0 ≤ lead ∧ lead < 0xf0 then read 2 (lead % 16) 0x800
    else if 0xf0 ≤ lead ∧ lead < 0xf8 then read 3 (lead % 8) 0x10000
    else none

/-- The character that stands for a byte of none. -/
def replacement : Char := '\ufffd'

/-- The characters of bytes, each with its offset. The fuel is never short when it is the number of the
bytes. -/
def charsFrom (fuel offset : Nat) (bytes : Bytes) : List (Nat × Char) :=
  match fuel, bytes with
  | _, [] => []
  | 0, _ => []
  | fuel + 1, byte :: rest =>
    match charOfBytes? (byte :: rest) with
    | some (c, count) => (offset, c) :: charsFrom fuel (offset + count) (rest.drop (count - 1))
    | none => (offset, replacement) :: charsFrom fuel (offset + 1) rest

def charsOf (bytes : Bytes) : List (Nat × Char) := charsFrom bytes.length 0 bytes

def ofBytes (bytes : Bytes) : String := String.ofList ((charsOf bytes).map (·.2))

/-- How many bytes the first character has; none if there is no byte. -/
def firstWidth (bytes : Bytes) : Nat :=
  match bytes with
  | [] => 0
  | _ => ((charOfBytes? bytes).map (·.2)).getD 1

/-- Where bytes occur first in others. -/
def indexOf? (needle : Bytes) (bytes : Bytes) : Option Nat :=
  if needle.isPrefixOf bytes then some 0
  else
    match bytes with
    | [] => none
    | _ :: rest => (indexOf? needle rest).map (· + 1)

/-- Where bytes occur last in others. -/
def lastIndexOf? (needle : Bytes) (bytes : Bytes) : Option Nat :=
  match bytes with
  | [] => if needle.isEmpty then some 0 else none
  | b :: rest =>
    match lastIndexOf? needle rest with
    | some i => some (i + 1)
    | none => if needle.isPrefixOf (b :: rest) then some 0 else none

/-- Where one of some characters occurs first, the first of them that does counting. -/
def indexOfAny? (chars : List Char) (bytes : Bytes) : Option Nat :=
  chars.findSome? fun c => indexOf? (String.utf8EncodeChar c) bytes

/-- Where one of some characters occurs last, the first of them that does counting. -/
def lastIndexOfAny? (chars : List Char) (bytes : Bytes) : Option Nat :=
  chars.findSome? fun c => lastIndexOf? (String.utf8EncodeChar c) bytes

end OverloadDocs.Text
