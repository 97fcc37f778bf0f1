import OverloadDocs.Text.Printable
import OverloadDocs.Text.Utf8

/-!
Texts in double quotes, as diagnostics show them. Quotes and backslashes are escaped, the common
controls have short names, and whatever is not printable is written by its number in hexadecimal.
-/

namespace OverloadDocs.Text

/-- The last `width` hexadecimal digits of a number, in lower case. -/
def hexDigits : Nat → Nat → List Char
  | 0, _ => []
  | width + 1, n => hexDigits width (n / 16) ++ [Nat.digitChar (n % 16)]

/-- One byte by its number. -/
def escapedByte (n : Nat) : List Char :=
  '\\' :: 'x' :: hexDigits 2 n

/-- One character as it stands between double quotes. -/
def quotedChar (c : Char) : List Char :=
  if c == '"' || c == '\\' then ['\\', c]
  else if c == '\x07' then ['\\', 'a']
  else if c == '\x08' then ['\\', 'b']
  else if c == '\x0c' then ['\\', 'f']
  else if c == '\n' then ['\\', 'n']
  else if c == '\r' then ['\\', 'r']
  else if c == '\t' then ['\\', 't']
  else if c == '\x0b' then ['\\', 'v']
  else if isPrintable c then [c]
  else if c.toNat < 0x20 || c.toNat == 0x7f then escapedByte c.toNat
  else if c.toNat < 0x10000 then '\\' :: 'u' :: hexDigits 4 c.toNat
  else '\\' :: 'U' :: hexDigits 8 c.toNat

/-- The text in double quotes. -/
def quoted (s : String) : String :=
  String.ofList ('"' :: s.toList.flatMap quotedChar ++ ['"'])

/-- One character in single quotes. -/
def quotedSingly (c : Char) : String :=
  String.ofList ('\'' :: (if c == '\'' then ['\\', c] else if c == '"' then [c] else quotedChar c) ++ ['\''])

/-- A single byte in double quotes; a byte that is no character of its own is escaped. -/
def quotedByte (b : UInt8) : String :=
  if b < 0x80 then quoted (String.singleton (Char.ofNat b.toNat))
  else String.ofList ('"' :: escapedByte b.toNat ++ ['"'])

/-- The characters of bytes as they stand between double quotes, where a byte of no character is
escaped. The fuel is never short when it is the number of the bytes. -/
def quotedFrom (fuel : Nat) (bytes : Bytes) : List Char :=
  match fuel, bytes with
  | _, [] => []
  | 0, _ => []
  | fuel + 1, byte :: rest =>
    match charOfBytes? (byte :: rest) with
    | some (c, count) => quotedChar c ++ quotedFrom fuel (rest.drop (count - 1))
    | none => escapedByte byte.toNat ++ quotedFrom fuel rest

def quotedBytes (bytes : Bytes) : String :=
  String.ofList ('"' :: quotedFrom bytes.length bytes ++ ['"'])

end OverloadDocs.Text
