import OverloadDocs.Text.Csv
import OverloadDocs.Text.Integer
import OverloadDocs.Text.Quoted

/-!
Flags of a command line. A long flag is written with two dashes and its value after an equals sign or as
the next word; short flags can be written together behind one dash, the last with its value. Flags and
other words may be mixed, and two dashes alone end the flags.
-/

namespace OverloadDocs.Command

/-- What a flag takes. -/
inductive FlagKind where
  | toggle
  | text
  | number
  | texts
  | names
  deriving DecidableEq

structure Flag where
  name : String
  letter : Option Char := none
  kind : FlagKind
  deriving DecidableEq

def Flag.render (f : Flag) : String :=
  match f.letter with
  | some c => s!"-{c}, --{f.name}"
  | none => "--" ++ f.name

/-- Why a value does not fit its flag. -/
inductive ValueFault where
  | notToggle (text : String)
  | notNumber (text : String)
  | tooLarge (text : String)
  | notNames (cause : Text.Csv.Error)
  deriving DecidableEq

def ValueFault.message : ValueFault → String
  | .notToggle text => s!"strconv.ParseBool: parsing {Text.quoted text}: invalid syntax"
  | .notNumber text => s!"strconv.ParseInt: parsing {Text.quoted text}: invalid syntax"
  | .tooLarge text => s!"strconv.ParseInt: parsing {Text.quoted text}: value out of range"
  | .notNames cause => cause.message

inductive FlagValue where
  | toggle (on : Bool)
  | text (text : String)
  | number (n : Int)
  | names (names : List String)
  deriving DecidableEq

def onWords : List String := ["1", "t", "T", "TRUE", "true", "True"]

def offWords : List String := ["0", "f", "F", "FALSE", "false", "False"]

def FlagKind.read (kind : FlagKind) (text : String) : Except ValueFault FlagValue :=
  match kind with
  | .toggle =>
    if onWords.contains text then .ok (.toggle true)
    else if offWords.contains text then .ok (.toggle false)
    else .error (.notToggle text)
  | .text => .ok (.text text)
  | .texts => .ok (.text text)
  | .number =>
    match Text.integer? text.toList with
    | some n => .ok (.number n)
    | none => .error (if Text.isTooLarge text.toList then .tooLarge text else .notNumber text)
  | .names =>
    if text = "" then .ok (.names [])
    else match Text.Csv.firstRecord text with
      | .ok fields => .ok (.names fields)
      | .error e => .error (.notNames e)

/-- What is wrong with the flags of a command line. -/
inductive FlagError where
  | badForm (word : String)
  | unknown (name : String)
  | unknownLetter (letter : Char) (group : String)
  | valueMissing (word : String)
  | letterValueMissing (letter : Char) (group : String)
  | badValue (flag : Flag) (value : String) (fault : ValueFault)
  deriving DecidableEq

/-- The character of the first byte of a character. -/
def leadingByte (c : Char) : Char := Char.ofNat ((String.utf8EncodeChar c).headD 0).toNat

/-- How an unknown letter is shown: its first byte is taken for a character, and so is the first byte of
that, which leaves ASCII as it is. -/
def shownLetter (c : Char) : Char := leadingByte (leadingByte c)

def FlagError.message : FlagError → String
  | .badForm word => "bad flag syntax: " ++ word
  | .unknown name => "unknown flag: --" ++ name
  | .unknownLetter letter group =>
    s!"unknown shorthand flag: {Text.quotedSingly (shownLetter letter)} in -{group}"
  | .valueMissing word => "flag needs an argument: " ++ word
  | .letterValueMissing letter group => s!"flag needs an argument: {Text.quotedSingly letter} in -{group}"
  | .badValue flag value fault =>
    s!"invalid argument {Text.quoted value} for {Text.quoted flag.render} flag: {fault.message}"

/-- Flags with their values and the other words, in the order of the command line. -/
structure Parsed where
  settings : List (Flag × FlagValue) := []
  words : List String := []
  deriving DecidableEq

namespace Parsed

/-- Whether a toggle is on. Of several settings the last counts. -/
def isOn (p : Parsed) (name : String) : Bool :=
  (p.settings.foldl (fun on (f, v) =>
    match v with
    | .toggle b => if f.name = name then b else on
    | _ => on) false)

def text? (p : Parsed) (name : String) : Option String :=
  p.settings.foldl (fun found (f, v) =>
    match v with
    | .text t => if f.name = name then some t else found
    | _ => found) none

/-- The number of a flag, if it is given. Of several the last counts. -/
def number? (p : Parsed) (name : String) : Option Int :=
  p.settings.foldl (fun found (f, v) =>
    match v with
    | .number n => if f.name = name then some n else found
    | _ => found) none

def list (p : Parsed) (name : String) : List String :=
  p.settings.flatMap fun (f, v) =>
    if f.name = name then
      match v with
      | .text t => [t]
      | .names ts => ts
      | _ => []
    else []

def addSetting (flag : Flag) (value : FlagValue) (p : Parsed) : Parsed :=
  { p with settings := (flag, value) :: p.settings }

def addWord (word : String) (p : Parsed) : Parsed := { p with words := word :: p.words }

end Parsed

/-- The value of a flag as a text is given for it. -/
def Flag.read (f : Flag) (text : String) : Except FlagError FlagValue :=
  match f.kind.read text with
  | .ok v => .ok v
  | .error fault => .error (.badValue f text fault)

def flagNamed? (flags : List Flag) (name : String) : Option Flag := flags.find? (·.name = name)

def flagLettered? (flags : List Flag) (letter : Char) : Option Flag := flags.find? (·.letter = some letter)

/-- What a group of short flags comes to: settings, and at its end perhaps a flag that takes the next
word. -/
structure Group where
  settings : List (Flag × FlagValue) := []
  pending : Option (Flag × String) := none

def readGroup (flags : List Flag) : List Char → Except FlagError Group
  | [] => .ok {}
  | c :: rest =>
    let group := String.ofList (c :: rest)
    if "test.".toList.isPrefixOf (c :: rest) then .ok {}
    else
      match flagLettered? flags c with
      | none => .error (.unknownLetter c group)
      | some flag =>
        match rest with
        | '=' :: v :: value =>
          (flag.read (String.ofList (v :: value))).map fun v => { settings := [(flag, v)] }
        | rest =>
          if flag.kind = .toggle then
            (readGroup flags rest).map fun g => { g with settings := (flag, .toggle true) :: g.settings }
          else if rest = [] then .ok { pending := some (flag, group) }
          else (flag.read (String.ofList rest)).map fun v => { settings := [(flag, v)] }

/-- A long flag without its dashes: the name, and the value after an equals sign. -/
def splitAtEquals (cs : List Char) : String × Option String :=
  let name := cs.takeWhile (· ≠ '=')
  (String.ofList name, (cs.drop name.length).tail?.map String.ofList)

def parseWords (flags : List Flag) : List String → Except FlagError Parsed
  | [] => .ok {}
  | word :: more =>
    match word.toList with
    | '-' :: '-' :: [] => .ok { words := more }
    | '-' :: '-' :: c :: cs =>
      if c = '-' ∨ c = '=' then .error (.badForm word)
      else
        let (name, value?) := splitAtEquals (c :: cs)
        match flagNamed? flags name with
        | none => .error (.unknown name)
        | some flag =>
          match value? with
          | some value => do
            let v ← flag.read value
            return (← parseWords flags more).addSetting flag v
          | none =>
            if flag.kind = .toggle then do return (← parseWords flags more).addSetting flag (.toggle true)
            else match more with
              | [] => .error (.valueMissing word)
              | value :: more => do
                let v ← flag.read value
                return (← parseWords flags more).addSetting flag v
    | '-' :: c :: cs =>
      match readGroup flags (c :: cs) with
      | .error e => .error e
      | .ok g =>
        match g.pending with
        | none => do
          let p ← parseWords flags more
          return { p with settings := g.settings ++ p.settings }
        | some (flag, group) =>
          match more with
          | [] => .error (.letterValueMissing (flag.letter.getD ' ') group)
          | value :: more => do
            let v ← flag.read value
            let p ← parseWords flags more
            return { p with settings := g.settings ++ (flag, v) :: p.settings }
    | _ => do return (← parseWords flags more).addWord word

end OverloadDocs.Command
