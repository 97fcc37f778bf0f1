/-!
Content digests: the SHA-256 of the UTF-8 bytes of a text. A padded message is taken apart into blocks of
sixteen words, and each block is mixed into the state by sixty-four rounds.
-/

namespace OverloadDocs

/-- A digest, as its bytes. -/
structure Digest where
  bytes : List UInt8
  deriving DecidableEq, Inhabited

namespace Digest

/-- The eight words that blocks are mixed into. -/
structure State where
  a : UInt32
  b : UInt32
  c : UInt32
  d : UInt32
  e : UInt32
  f : UInt32
  g : UInt32
  h : UInt32

def initial : State :=
  ⟨0x6a09e667, 0xbb67ae85, 0x3c6ef372, 0xa54ff53a, 0x510e527f, 0x9b05688c, 0x1f83d9ab, 0x5be0cd19⟩

def roundConstants : List UInt32 :=
  [0x428a2f98, 0x71374491, 0xb5c0fbcf, 0xe9b5dba5, 0x3956c25b, 0x59f111f1, 0x923f82a4, 0xab1c5ed5,
    0xd807aa98, 0x12835b01, 0x243185be, 0x550c7dc3, 0x72be5d74, 0x80deb1fe, 0x9bdc06a7, 0xc19bf174,
    0xe49b69c1, 0xefbe4786, 0x0fc19dc6, 0x240ca1cc, 0x2de92c6f, 0x4a7484aa, 0x5cb0a9dc, 0x76f988da,
    0x983e5152, 0xa831c66d, 0xb00327c8, 0xbf597fc7, 0xc6e00bf3, 0xd5a79147, 0x06ca6351, 0x14292967,
    0x27b70a85, 0x2e1b2138, 0x4d2c6dfc, 0x53380d13, 0x650a7354, 0x766a0abb, 0x81c2c92e, 0x92722c85,
    0xa2bfe8a1, 0xa81a664b, 0xc24b8b70, 0xc76c51a3, 0xd192e819, 0xd6990624, 0xf40e3585, 0x106aa070,
    0x19a4c116, 0x1e376c08, 0x2748774c, 0x34b0bcb5, 0x391c0cb3, 0x4ed8aa4a, 0x5b9cca4f, 0x682e6ff3,
    0x748f82ee, 0x78a5636f, 0x84c87814, 0x8cc70208, 0x90befffa, 0xa4506ceb, 0xbef9a3f7, 0xc67178f2]

/-- A word turned to the right. -/
def rotated (x n : UInt32) : UInt32 := (x >>> n) ||| (x <<< (32 - n))

/-- The words of the rounds, in reverse, from those of a block in reverse: each further word is made of
four before it. -/
def extended : (count : Nat) → (reversed : List UInt32) → List UInt32
  | 0, reversed => reversed
  | count + 1, reversed =>
    let word (i : Nat) := reversed.getD i 0
    let s₀ := rotated (word 14) 7 ^^^ rotated (word 14) 18 ^^^ (word 14 >>> 3)
    let s₁ := rotated (word 1) 17 ^^^ rotated (word 1) 19 ^^^ (word 1 >>> 10)
    extended count ((word 15 + s₀ + word 6 + s₁) :: reversed)

def State.round (s : State) (x : UInt32) : State :=
  let s₁ := rotated s.e 6 ^^^ rotated s.e 11 ^^^ rotated s.e 25
  let choice := (s.e &&& s.f) ^^^ ((~~~ s.e) &&& s.g)
  let t₁ := s.h + s₁ + choice + x
  let s₀ := rotated s.a 2 ^^^ rotated s.a 13 ^^^ rotated s.a 22
  let majority := (s.a &&& s.b) ^^^ (s.a &&& s.c) ^^^ (s.b &&& s.c)
  ⟨t₁ + (s₀ + majority), s.a, s.b, s.c, s.d + t₁, s.e, s.f, s.g⟩

/-- Mixes a block of sixteen words into the state. -/
def State.mix (s : State) (block : List UInt32) : State :=
  let words := (extended 48 block.reverse).reverse
  let t := (List.zipWith (· + ·) roundConstants words).foldl State.round s
  ⟨s.a + t.a, s.b + t.b, s.c + t.c, s.d + t.d, s.e + t.e, s.f + t.f, s.g + t.g, s.h + t.h⟩

def bigEndian : (width : Nat) → Nat → List UInt8
  | 0, _ => []
  | width + 1, n => bigEndian width (n / 256) ++ [UInt8.ofNat (n % 256)]

/-- A message with a one bit, zeros and its length in bits, up to whole blocks. -/
def padded (message : List UInt8) : List UInt8 :=
  let zeros := (119 - message.length % 64) % 64
  message ++ 0x80 :: List.replicate zeros 0 ++ bigEndian 8 (8 * message.length)

/-- The big-endian words of bytes. -/
def wordsOf : List UInt8 → List UInt32
  | a :: b :: c :: d :: rest =>
    ((a.toUInt32 <<< 24) ||| (b.toUInt32 <<< 16) ||| (c.toUInt32 <<< 8) ||| d.toUInt32) :: wordsOf rest
  | _ => []

/-- Mixes all blocks of some words into the state. -/
def State.mixAll (s : State) (words : List UInt32) : State :=
  if words = [] then s else (s.mix (words.take 16)).mixAll (words.drop 16)
termination_by words.length
decreasing_by
  rename_i h
  have : 0 < words.length := List.length_pos_iff.2 h
  simp only [List.length_drop]
  omega

/-- The digest that a state stands for. -/
def ofState (s : State) : Digest :=
  ⟨[s.a, s.b, s.c, s.d, s.e, s.f, s.g, s.h].flatMap fun w => bigEndian 4 w.toNat⟩

def ofBytes (message : List UInt8) : Digest := ofState (initial.mixAll (wordsOf (padded message)))

def ofText (text : String) : Digest := ofBytes text.toUTF8.toList

def hex (d : Digest) : String :=
  String.ofList (d.bytes.flatMap fun b => [Nat.digitChar (b.toNat / 16), Nat.digitChar (b.toNat % 16)])

/-- The number that a hexadecimal digit stands for; other characters count as zero. -/
def hexValue (c : Char) : Nat :=
  if '0' ≤ c ∧ c ≤ '9' then c.toNat - '0'.toNat
  else if 'a' ≤ c ∧ c ≤ 'f' then c.toNat - 'a'.toNat + 10
  else if 'A' ≤ c ∧ c ≤ 'F' then c.toNat - 'A'.toNat + 10
  else 0

/-- The bytes that pairs of hexadecimal digits stand for. -/
def bytesOfHex : List Char → List UInt8
  | a :: b :: cs => UInt8.ofNat (16 * hexValue a + hexValue b) :: bytesOfHex cs
  | _ => []

/-- How many bytes a digest has. -/
def size : Nat := 32

/-- The digest whose first bytes are given in hexadecimal digits; the others are zero. -/
def ofHex (text : String) : Digest :=
  let bytes := bytesOfHex text.toList
  ⟨(bytes ++ List.replicate (size - bytes.length) 0).take size⟩

end Digest

end OverloadDocs
