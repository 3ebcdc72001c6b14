import QmlCodeModel.Text.Split

/-! The words of a command line: options, which start with dashes, and arguments. They are read from
left to right, and each of them is judged before the next one is looked at, so that the first word
that asks for help is answered only if all words before it are as they should be. -/
namespace QmlCodeModel

/-- What is wrong with a command line. -/
inductive UsageFault
  | noCommand
  | unknownCommand (word : String)
  | unknownOption (word : String)
  | repeatedOption (name : String)
  | missingValue (name : String)
  | unexpectedValue (name : String)
  | invalidValue (value : String)
  | missingArgument
  | unexpectedArgument (word : String)
  deriving DecidableEq, Repr

def UsageFault.message : UsageFault → String
  | .noCommand => "a command is required"
  | .unknownCommand word => "unknown command: " ++ word
  | .unknownOption word => "unknown option: " ++ word
  | .repeatedOption name => "option given twice: --" ++ name
  | .missingValue name => "a value is required for --" ++ name
  | .unexpectedValue name => "no value is allowed for --" ++ name
  | .invalidValue value => "invalid value: " ++ value
  | .missingArgument => "an argument is missing"
  | .unexpectedArgument word => "unexpected argument: " ++ word

/-- Why a command line asks for no command. -/
inductive Halt
  | fault (fault : UsageFault)
  | help
  | version
  deriving DecidableEq, Repr

/-- What a word does to settings. It does nothing to them if it is not admissible. -/
abbrev Setter (α : Type) := String → α → Option α

/-- Sets what a word means. -/
def setterOf {α β : Type} (ofText? : String → Option β) (set : β → α → α) : Setter α :=
  fun word settings => (ofText? word).map (set · settings)

/-- What an option means. -/
inductive OptionKind (α : Type)
  | flag (set : α → α)
  | valued (set? : Setter α)
  /-- The command line asks for something else than a command. -/
  | halting (halt : Halt)

structure OptionSpec (α : Type) where
  long : String
  short : Option Char := none
  kind : OptionKind α

/-- Which words may come. -/
structure Usage (α : Type) where
  options : List (OptionSpec α) := []
  /-- The arguments in their order. All of them must come. -/
  arguments : List (Setter α) := []

/-- How far words have been read. -/
structure WordState (α : Type) where
  settings : α
  /-- The arguments still to come. -/
  arguments : List (Setter α)
  /-- The names of the options that have come. -/
  given : List String := []
  /-- An option whose value is to come. -/
  pending : Option (String × Setter α) := none
  /-- Two dashes have come, after which no word is an option. -/
  ended : Bool := false

namespace WordState

variable {α : Type}

/-- Notes that an option has come. It may come once. -/
def give (s : WordState α) (name : String) : Except Halt (WordState α) :=
  if s.given.contains name then throw (.fault (.repeatedOption name))
  else return { s with given := name :: s.given }

def set (s : WordState α) (set? : Setter α) (word : String) : Except Halt (WordState α) :=
  match set? word s.settings with
  | some settings => return { s with settings }
  | none => throw (.fault (.invalidValue word))

/-- Takes an option with the value that is attached to it, if there is one. -/
def takeOption (s : WordState α) (spec : OptionSpec α) (value : Option String) :
    Except Halt (WordState α) :=
  match spec.kind, value with
  | .halting halt, none => throw halt
  | .flag set, none => do
    let s ← s.give spec.long
    return { s with settings := set s.settings }
  | .valued set?, some value => do (← s.give spec.long).set set? value
  | .valued set?, none => do
    let s ← s.give spec.long
    return { s with pending := some (spec.long, set?) }
  | _, some _ => throw (.fault (.unexpectedValue spec.long))

/-- Takes a word of two dashes and a name, which may be followed by an equals sign and a value. -/
def takeLong (options : List (OptionSpec α)) (s : WordState α) (text : List Char) :
    Except Halt (WordState α) :=
  let (name, value) := splitOnce '=' text
  match options.find? (·.long.toList = name) with
  | some spec => s.takeOption spec (value.map String.ofList)
  | none => throw (.fault (.unknownOption (String.ofList name)))

/-- The value that follows the letter of an option in the same word, maybe behind an equals sign. -/
def attached? : List Char → Option String
  | [] => none
  | '=' :: value => some (String.ofList value)
  | value => some (String.ofList value)

/-- Takes letters behind one dash. What follows the letter of an option with a value is the value. -/
def takeShort (options : List (OptionSpec α)) (s : WordState α) :
    List Char → Except Halt (WordState α)
  | [] => return s
  | c :: rest =>
    match options.find? (·.short = some c) with
    | none => throw (.fault (.unknownOption (String.singleton c)))
    | some spec =>
      match spec.kind with
      | .valued _ => s.takeOption spec (attached? rest)
      | _ => do (← s.takeOption spec none).takeShort options rest

def takeArgument (s : WordState α) (word : String) : Except Halt (WordState α) :=
  match s.arguments with
  | [] => throw (.fault (.unexpectedArgument word))
  | set? :: rest => { s with arguments := rest }.set set? word

/-- The word may be an option. A single dash is none. -/
def isOption (word : String) : Bool :=
  match word.toList with
  | '-' :: _ :: _ => true
  | _ => false

/-- Takes one word. -/
def take (options : List (OptionSpec α)) (s : WordState α) (word : String) :
    Except Halt (WordState α) :=
  if s.ended then s.takeArgument word
  else
    match s.pending with
    | some (name, set?) =>
      if isOption word then throw (.fault (.missingValue name))
      else { s with pending := none }.set set? word
    | none =>
      match word.toList with
      | ['-', '-'] => return { s with ended := true }
      | '-' :: '-' :: text => s.takeLong options text
      | '-' :: c :: text => s.takeShort options (c :: text)
      | _ => s.takeArgument word

/-- What is set once all words have been read. -/
def finish (s : WordState α) : Except Halt α :=
  match s.pending, s.arguments with
  | some (name, _), _ => throw (.fault (.missingValue name))
  | none, _ :: _ => throw (.fault .missingArgument)
  | none, [] => return s.settings

end WordState

/-- Reads all words, which change settings. -/
def Usage.read {α : Type} (u : Usage α) (settings : α) (words : List String) : Except Halt α := do
  let s : WordState α := { settings, arguments := u.arguments }
  (← words.foldlM (WordState.take u.options) s).finish

end QmlCodeModel
