import OverloadDocs.Text.Integer
import OverloadDocs.Text.Lower
import OverloadDocs.Text.Quoted
import OverloadDocs.Text.Utf8

/-!
Addresses of databases. An address is a path, or a URI with the scheme `file`, and may have options behind
a question mark. It says which file the database is kept in, or that it lasts only while it is open.
-/

namespace OverloadDocs

/-- How a database file is opened: it may be made, it has to be there, or it is only read. -/
inductive Access where
  | make
  | change
  | read
  deriving DecidableEq

/-- Where a database is. -/
inductive DatabasePlace where
  | passing
  | file (path : String) (access : Access)
  deriving DecidableEq

/-- What is wrong with an address. -/
inductive AddressError where
  | badEscape (bytes : Text.Bytes)
  | badSeparator
  | systemConflict (names : List Text.Bytes)
  | refused
  | notAllowed
  | badLock (word : Text.Bytes)
  | badTimeFormat (word : Text.Bytes)
  deriving DecidableEq

namespace AddressError

def message : AddressError → String
  | .badEscape bytes => "invalid URL escape " ++ Text.quotedBytes bytes
  | .badSeparator => "invalid semicolon separator in query"
  | .systemConflict names =>
    "conflicting vfs query parameters: [" ++ " ".intercalate (names.map Text.ofBytes) ++ "]"
  | .refused => "SQL logic error: out of memory (1)"
  | .notAllowed => "access permission denied: out of memory (3)"
  | .badLock word => "unknown _txlock " ++ Text.quotedBytes word
  | .badTimeFormat word => "unknown _time_format " ++ Text.quotedBytes word

end AddressError

namespace Address

/-- Options with their values. -/
abbrev Options := List (Text.Bytes × Text.Bytes)

def escapedByte? (a b : Char) : Option UInt8 := (Text.digitsFrom 16 0 [a, b]).map UInt8.ofNat

/-- What a part of an option stands for: a percent sign and two digits are a byte, and a plus is a
blank. -/
def optionBytes : List Char → Except AddressError Text.Bytes
  | [] => .ok []
  | '%' :: a :: b :: cs =>
    match escapedByte? a b with
    | some byte => (optionBytes cs).map (byte :: ·)
    | none => .error (.badEscape ((Text.bytesOfChars ['%', a, b]).take 3))
  | '%' :: cs => .error (.badEscape ((Text.bytesOfChars ('%' :: cs)).take 3))
  | '+' :: cs => (optionBytes cs).map (Text.bytesOf " " ++ ·)
  | c :: cs => (optionBytes cs).map (String.utf8EncodeChar c ++ ·)

/-- A text before and after the first of a character. -/
def cut (mark : Char) (cs : List Char) : List Char × List Char :=
  (cs.takeWhile (· ≠ mark), (cs.dropWhile (· ≠ mark)).drop 1)

def option (cs : List Char) : Except AddressError (Text.Bytes × Text.Bytes) := do
  let (name, value) := cut '=' cs
  return (← optionBytes name, ← optionBytes value)

/-- The options between ampersands, and the first thing wrong with them, before which a semicolon
comes. -/
def readOptions : Option AddressError → List (List Char) → Except AddressError Options
  | none, [] => .ok []
  | some e, [] => .error e
  | fault, cs :: rest =>
    if cs.contains ';' then readOptions (some .badSeparator) rest
    else if cs.isEmpty then readOptions fault rest
    else
      match option cs with
      | .error e => readOptions (some (fault.getD e)) rest
      | .ok pair => (readOptions fault rest).map (pair :: ·)

def valuesOf (options : Options) (name : String) : List Text.Bytes :=
  (options.filter (·.1 = Text.bytesOf name)).map (·.2)

/-- The value of an option that is not empty. Of several the first counts. -/
def valueOf? (options : Options) (name : String) : Option Text.Bytes :=
  (valuesOf options name).head?.filter (· ≠ [])

/-- The file system that options ask for, empty if for none. -/
def systemOf (options : Options) : Except AddressError Text.Bytes :=
  let names := valuesOf options "vfs"
  names.foldlM (fun found name =>
    if found ≠ [] ∧ found ≠ name then .error (.systemConflict names) else .ok name) []

def lockWords : List String := ["deferred", "immediate", "exclusive"]

/-- What shows as wrong with options once the database is open. -/
def lateFault? (options : Options) : Option AddressError :=
  match (valueOf? options "_time_format").filter (· ≠ Text.bytesOf "sqlite") with
  | some word => some (.badTimeFormat word)
  | none =>
    ((valueOf? options "_txlock").filter fun word =>
      !lockWords.contains (Text.lower (Text.ofBytes word))).map .badLock

/-- What a part of a URI stands for. A zero byte ends it, and a percent sign without digits stands for
itself. -/
def uriBytes : List Char → Text.Bytes
  | [] => []
  | '%' :: a :: b :: cs =>
    match escapedByte? a b with
    | some byte => if byte = 0 then [] else byte :: uriBytes cs
    | none => Text.bytesOf "%" ++ uriBytes (a :: b :: cs)
  | c :: cs => String.utf8EncodeChar c ++ uriBytes cs

/-- The access that a mode gives, as a number in which more rights are larger, and whether the database
is kept in memory. -/
def modes : List (String × Nat × Bool) :=
  [("ro", 1, false), ("rw", 2, false), ("rwc", 6, false), ("memory", 0, true)]

/-- What options of a URI ask for: the rights, whether the database is kept in memory, and the file
system. -/
structure Request where
  rights : Nat := 6
  inMemory : Bool := false
  system : Option Text.Bytes := none

/-- Takes an option into a request. A mode may not give more rights than there are. -/
def Request.add (r : Request) (name value : Text.Bytes) : Except AddressError Request :=
  if name = Text.bytesOf "vfs" then .ok { r with system := some value }
  else if name = Text.bytesOf "cache" then
    if value = Text.bytesOf "shared" ∨ value = Text.bytesOf "private" then .ok r else .error .refused
  else if name = Text.bytesOf "mode" then
    match modes.find? fun mode => Text.bytesOf mode.1 = value with
    | none => .error .refused
    | some (_, rights, inMemory) =>
      if !r.inMemory && r.rights < rights then .error .notAllowed
      else .ok { r with rights := rights, inMemory := inMemory }
  else .ok r

/-- The path of a URI behind its scheme and what its options ask for. Of hosts only the local one is
known, and options without a name do not count. -/
def ofUri (cs : List Char) : Except AddressError (String × Request) := do
  let cs ← match cs with
    | '/' :: '/' :: rest =>
      let host := String.ofList (cut '/' rest).1
      if host = "" ∨ host = "localhost" then pure (rest.dropWhile (· ≠ '/')) else throw .refused
    | cs => pure cs
  let (path, options) := cut '?' (cut '#' cs).1
  let request ← (options.splitOn '&').foldlM (fun (r : Request) part =>
    let (name, value) := cut '=' part
    if uriBytes name = [] then .ok r else r.add (uriBytes name) (uriBytes value)) {}
  return (Text.ofBytes (uriBytes path), request)

def fileSystems : List String := ["unix", "unix-dotfile", "unix-excl", "unix-none"]

/-- Where a database is by its path and what is asked for. -/
def placeOf (path : String) (r : Request) : Except AddressError DatabasePlace :=
  let known := (r.system.map fun name => fileSystems.any fun known => Text.bytesOf known = name).getD true
  if r.system = some (Text.bytesOf "memdb") then .ok .passing
  else if !known then .error .refused
  else if r.inMemory ∨ path = "" ∨ path = ":memory:" then .ok .passing
  else .ok (.file path (if r.rights = 1 then .read else if r.rights = 2 then .change else .make))

def scheme : List Char := "file:".toList

/-- A text up to the character that ends texts. -/
def untilEnd (cs : List Char) : List Char := cs.takeWhile (· ≠ '\x00')

/-- Where the database of an address is, and what shows as wrong with the address once it is open. A
question mark at the front belongs to the path. -/
def read (address : String) : Except AddressError (DatabasePlace × Option AddressError) := do
  let cs := address.toList
  let (before, query) := if cs.head? == some '?' then (cs, []) else cut '?' cs
  let options ← readOptions none (query.splitOn '&')
  let system ← systemOf options
  let asked : Option Text.Bytes := if system = [] then none else some system
  let (path, request) ← if scheme.isPrefixOf cs then do
      let (path, request) ← ofUri (untilEnd (cs.drop scheme.length))
      pure (path, { request with system := request.system.or asked })
    else pure (String.ofList (untilEnd before), { system := asked })
  return (← placeOf path request, lateFault? options)

end Address

end OverloadDocs
