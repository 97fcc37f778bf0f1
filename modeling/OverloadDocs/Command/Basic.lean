import OverloadDocs.Command.Flag
import OverloadDocs.Text.Distance

/-!
The commands, their flags and how many arguments they take, and which of them a command line calls. The
first word that belongs to no flag names the command; the flags of all commands may stand before it.
-/

namespace OverloadDocs

def programName : String := "standoc"

/-- What the program can be told to do. -/
inductive Command where
  | parse
  | extract
  | resolve
  | index
  | search
  | status
  | version
  deriving DecidableEq

namespace Command

def name : Command → String
  | .parse => "parse"
  | .extract => "extract"
  | .resolve => "resolve"
  | .index => "index"
  | .search => "search"
  | .status => "status"
  | .version => "version"

def all : List Command := [.parse, .extract, .resolve, .index, .search, .status, .version]

def ofName? (word : String) : Option Command := all.find? (·.name = word)

/-- The words that are answered outside: running the service, and explaining how the program is used. -/
def outerWords : List String := ["serve", "completion", "help"]

/-- The words that are suggested in place of one that is not known, in order. -/
def suggestedWords : List String :=
  ["parse", "extract", "resolve", "index", "search", "status", "serve", "version", "completion"]

def commonFlags : List Flag :=
  [⟨"root", none, .text⟩, ⟨"db", none, .text⟩, ⟨"format", some 'f', .text⟩,
    ⟨"verbose", some 'v', .toggle⟩]

def helpFlag : Flag := ⟨"help", some 'h', .toggle⟩

/-- The flags of a command of its own. -/
def ownFlags : Command → List Flag
  | .parse => [⟨"type", none, .toggle⟩]
  | .extract => [⟨"members", some 'm', .text⟩, ⟨"strict", none, .toggle⟩]
  | .resolve => [⟨"file", none, .texts⟩]
  | .index => [⟨"quiet", some 'q', .toggle⟩, ⟨"watch", some 'w', .toggle⟩]
  | .search =>
    [⟨"mode", none, .text⟩, ⟨"limit", some 'n', .number⟩, ⟨"file-pattern", none, .text⟩,
      ⟨"name", none, .names⟩]
  | .status => []
  | .version => []

/-- How many arguments a command takes. -/
inductive Arity where
  | none
  | exactly (n : Nat)
  | atMost (n : Nat)
  deriving DecidableEq

def arity : Command → Arity
  | .parse | .extract | .resolve | .search => .exactly 1
  | .index => .atMost 1
  | .status | .version => .none

/-- What is wrong with a command line. -/
inductive UsageError where
  | unknownCommand (word : String)
  | flag (cause : FlagError)
  | wrongCount (n got : Nat)
  | tooMany (n got : Nat)
  | unexpected (word : String) (command : Command)
  deriving DecidableEq

/-- How far apart a word and one that is suggested for it may be. -/
def maxDistance : Nat := 2

/-- Whether a command might have been meant by a word. -/
def isClose (word command : String) : Bool :=
  Text.distance word command ≤ maxDistance || (Text.lower word).toList.isPrefixOf command.toList

/-- The commands that might have been meant, to be put behind a message. -/
def suggestions (word : String) : String :=
  match suggestedWords.filter (isClose word) with
  | [] => ""
  | close => "\n\nDid you mean this?\n" ++ String.join (close.map fun c => s!"\t{c}\n")

def UsageError.message : UsageError → String
  | .unknownCommand word =>
    s!"unknown command {Text.quoted word} for {Text.quoted programName}" ++ suggestions word
  | .flag cause => cause.message
  | .wrongCount n got => s!"accepts {n} arg(s), received {got}"
  | .tooMany n got => s!"accepts at most {n} arg(s), received {got}"
  | .unexpected word command =>
    s!"unknown command {Text.quoted word} for " ++ Text.quoted s!"{programName} {command.name}"

def UsageError.hint : UsageError → String
  | .unknownCommand _ => s!"Run '{programName} --help' for usage.\n"
  | _ => ""

/-- Whether the next word is the value of a word that looks like a flag. Flags that are not known here are
taken to have values. -/
def takesNext (word : String) : Bool :=
  match word.toList with
  | '-' :: '-' :: cs =>
    !cs.contains '=' && ((flagNamed? commonFlags (String.ofList cs)).map (·.kind)) ≠ some .toggle
  | '-' :: c :: [] =>
    c.utf8Size == 1 && c ≠ '=' && ((flagLettered? commonFlags c).map (·.kind)) ≠ some .toggle
  | _ => false

def isDashed (word : String) : Bool := word.toList.head? == some '-'

/-- The first word that belongs to no flag. A flag whose value is the last word ends the look. -/
def commandWord? : List String → Option String
  | [] => none
  | word :: more =>
    if word = "--" then none
    else if takesNext word then
      match more with
      | _ :: next :: more => commandWord? (next :: more)
      | _ => none
    else if word = "" || isDashed word then commandWord? more
    else some word

/-- The command line without the word that names the command. -/
def withoutCommandWord (command : String) : List String → List String
  | [] => []
  | word :: more =>
    if word = "--" then word :: more
    else if takesNext word then
      match more with
      | [] => [word]
      | value :: more => word :: value :: withoutCommandWord command more
    else if word = command then more
    else word :: withoutCommandWord command more

def checkCount (command : Command) (words : List String) : Except UsageError Unit :=
  match command.arity, words with
  | .none, [] => .ok ()
  | .none, word :: _ => .error (.unexpected word command)
  | .exactly n, words => if words.length = n then .ok () else .error (.wrongCount n words.length)
  | .atMost n, words => if words.length ≤ n then .ok () else .error (.tooMany n words.length)

/-- What a command line comes to. -/
inductive Invocation where
  /-- Usage is asked for, or the word is answered outside. -/
  | outer
  | run (command : Command) (line : Parsed)

/-- Reads the flags and arguments of a command line, of which the word that names the command has been
taken away. -/
def invocationOf (flags : List Flag) (words : List String) (next : Parsed → Except UsageError Invocation) :
    Except UsageError Invocation :=
  match parseWords (flags ++ commonFlags ++ [helpFlag]) words with
  | .error e => .error (.flag e)
  | .ok line => if line.isOn helpFlag.name then .ok .outer else next line

def Invocation.ofWords (words : List String) : Except UsageError Invocation :=
  match commandWord? words with
  | none => invocationOf [] words fun _ => .ok .outer
  | some word =>
    match ofName? word with
    | none => if outerWords.contains word then .ok .outer else .error (.unknownCommand word)
    | some command =>
      invocationOf command.ownFlags (withoutCommandWord word words) fun line =>
        (command.checkCount line.words).map fun _ => .run command line

end Command

end OverloadDocs
