import QmlCodeModel.Command.Arguments
import QmlCodeModel.Dialect

/-! The commands of the program, and how a command line names them. -/
namespace QmlCodeModel

inductive OutputFormat
  | text | json
  deriving DecidableEq, Repr

def OutputFormat.ofText? : String → Option OutputFormat
  | "text" => some .text
  | "json" => some .json
  | _ => none

inductive Command
  /-- Report the messages and imports of a file. -/
  | parse (file : Path) (dialect : Option Dialect) (expression : Bool) (format : OutputFormat)
  /-- List the names of objects. -/
  | ids (file : Path) (format : OutputFormat)
  /-- List the ranges around an offset. -/
  | ranges (file : Path) (offset : Nat) (format : OutputFormat)
  /-- Show the outline of a file. -/
  | objects (file : Path) (format : OutputFormat)
  /-- Find the path of a property. -/
  | path (file : Path) (offset : Nat) (chain : String) (format : OutputFormat)
  /-- Read all files of a project. -/
  | index (project : Path) (watch : Bool) (format : OutputFormat)
  /-- Read all files of a project, and go on watching them. -/
  | watch (project : Path)
  | dialects
  deriving DecidableEq, Repr

/-- What the words after the name of a command set. -/
structure CommandSettings where
  file : Path := ⟨""⟩
  offset : Nat := 0
  chain : String := ""
  dialect : Option Dialect := none
  expression : Bool := false
  format : OutputFormat := .text
  project : Path := ⟨"."⟩
  watch : Bool := false
  deriving DecidableEq, Repr

namespace CommandSettings

/-- The path of a text, which must not be empty. -/
def path? (text : String) : Option Path := if text.isEmpty then none else some ⟨text⟩

/-- An offset is a whole number of 64 bits. -/
def offset? (text : String) : Option Nat := word? 64 10 text.toList

def setFile : Setter CommandSettings := setterOf path? fun file s => { s with file }

def setOffset : Setter CommandSettings := setterOf offset? fun offset s => { s with offset }

def setChain : Setter CommandSettings := setterOf some fun chain s => { s with chain }

def formatOption : OptionSpec CommandSettings :=
  ⟨"format", some 'f', .valued (setterOf OutputFormat.ofText? fun format s => { s with format })⟩

def dialectOption : OptionSpec CommandSettings :=
  ⟨"dialect", none,
    .valued (setterOf Dialect.ofLabel? fun dialect s => { s with dialect := some dialect })⟩

def expressionOption : OptionSpec CommandSettings :=
  ⟨"expression", none, .flag fun s => { s with expression := true }⟩

def projectOption : OptionSpec CommandSettings :=
  ⟨"project", some 'p', .valued (setterOf path? fun project s => { s with project })⟩

def watchOption : OptionSpec CommandSettings :=
  ⟨"watch", some 'w', .flag fun s => { s with watch := true }⟩

end CommandSettings

namespace Command

/-- Options that stand before or after the name of a command. They tell how much is logged. -/
def loggingOptions {α : Type} : List (OptionSpec α) :=
  [⟨"debug", some 'd', .flag id⟩, ⟨"verbose", some 'v', .flag id⟩]

def helpOption {α : Type} : OptionSpec α := ⟨"help", some 'h', .halting .help⟩

/-- The options in front of the name of a command. -/
def frontOptions : List (OptionSpec Unit) :=
  ⟨"version", some 'V', .halting .version⟩ :: helpOption :: loggingOptions

/-- How a command is asked for. -/
structure Spec where
  name : String
  /-- The options, beside those of all commands. -/
  options : List (OptionSpec CommandSettings) := []
  arguments : List (Setter CommandSettings) := []
  command : CommandSettings → Command

open CommandSettings in
/-- All commands. -/
def specs : List Spec := [
  { name := "parse"
    options := [formatOption, dialectOption, expressionOption]
    arguments := [setFile]
    command := fun s => .parse s.file s.dialect s.expression s.format },
  { name := "ids"
    options := [formatOption]
    arguments := [setFile]
    command := fun s => .ids s.file s.format },
  { name := "ranges"
    options := [formatOption]
    arguments := [setFile, setOffset]
    command := fun s => .ranges s.file s.offset s.format },
  { name := "objects"
    options := [formatOption]
    arguments := [setFile]
    command := fun s => .objects s.file s.format },
  { name := "path"
    options := [formatOption]
    arguments := [setFile, setOffset, setChain]
    command := fun s => .path s.file s.offset s.chain s.format },
  { name := "index"
    options := [formatOption, projectOption, watchOption]
    command := fun s => .index s.project s.watch s.format },
  { name := "watch"
    options := [projectOption]
    command := fun s => .watch s.project },
  { name := "dialects"
    command := fun _ => .dialects }]

/-- The command with the words after its name. -/
def Spec.read (c : Spec) (words : List String) : Except Halt Command := do
  let usage : Usage CommandSettings := ⟨c.options ++ helpOption :: loggingOptions, c.arguments⟩
  return c.command (← usage.read {} words)

def spec? (name : String) : Option Spec := specs.find? (·.name = name)

/-- What is asked for after the word for help: it may be followed by the name of a command, also its
own, and by nothing else. -/
def helpOn : List String → Halt
  | [] => .help
  | name :: rest =>
    if name ≠ "help" && (spec? name).isNone then .fault (.unknownCommand name)
    else
      match rest with
      | [] => .help
      | word :: _ => .fault (.unknownCommand word)

/-- The command that a command line asks for. -/
def ofCommandLine (words : List String) : Except Halt Command := do
  let front := words.takeWhile WordState.isOption
  Usage.read ⟨frontOptions, []⟩ () front
  match words.drop front.length with
  | [] => throw (.fault .noCommand)
  | name :: rest =>
    if front.contains "--" then throw (.fault (.unexpectedArgument name))
    else if name = "help" then throw (helpOn rest)
    else
      match spec? name with
      | some spec => spec.read rest
      | none => throw (.fault (.unknownCommand name))

end Command
end QmlCodeModel
