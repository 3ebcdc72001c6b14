import QmlCodeModel.Config.Basic
import QmlCodeModel.FileSystem
import QmlCodeModel.Toml.Document

/-! Reading the settings of a project from its file. -/
namespace QmlCodeModel

/-- Why settings cannot be read from a file. -/
inductive ConfigError
  | unreadable (fault : FileFault)
  /-- The file is no TOML, or a value in it has the wrong type. -/
  | malformed
  | invalid (fault : ConfigFault)
  deriving DecidableEq, Repr

def ConfigError.message : ConfigError → String
  | .unreadable fault => "io: " ++ fault.message
  | .malformed => "config parse: no settings in TOML"
  | .invalid fault => "invalid configuration: " ++ fault.message

namespace Toml.Value

def string? : Value → Option String
  | .string text => some text
  | _ => none

def bool? : Value → Option Bool
  | .bool value => some value
  | _ => none

/-- A whole number that is not negative. -/
def nat? : Value → Option Nat
  | .integer (.ofNat n) => some n
  | _ => none

def strings? : Value → Option (List String)
  | .array items => items.mapM string?
  | _ => none

end Toml.Value

open Toml (Value)

/-- A field of some settings: its name, and what a value changes. -/
structure Setting (σ : Type) where
  name : String
  assign? : Value → σ → Option σ

namespace Setting

variable {σ α : Type}

/-- A field that a value of the right type replaces. -/
def replacing (name : String) (value? : Value → Option α) (set : α → σ → σ) : Setting σ :=
  ⟨name, fun v s => (value? v).map (set · s)⟩

/-- Assigns values to fields by their order. Values beyond the last field do not count. -/
def assignInOrder? (fields : List (Setting σ)) (values : List Value) (s : σ) : Option σ :=
  (fields.zip values).foldlM (fun s (field, v) => field.assign? v s) s

/-- Assigns the fields of a table by their names; others do not count. Values in a list are taken
in order. A moment has no fields. -/
def assignAll? (fields : List (Setting σ)) (v : Value) (s : σ) : Option σ :=
  match v with
  | .table _ entries =>
    fields.foldlM (fun s field =>
      match entries.lookup field.name with
      | some v => field.assign? v s
      | none => some s) s
  | .array items => assignInOrder? fields items s
  | .tables items => assignInOrder? fields (items.map (.table .header)) s
  | .moment => some s
  | _ => none

/-- A field that holds settings with fields of their own. -/
def inner {τ : Type} (name : String) (get : σ → τ) (set : τ → σ → σ) (fields : List (Setting τ)) :
    Setting σ :=
  ⟨name, fun v s => (assignAll? fields v (get s)).map (set · s)⟩

end Setting

open Setting

def ProjectSettings.fields : List (Setting ProjectSettings) := [
  replacing "name" Value.string? fun name s => { s with name },
  replacing "root" Value.string? fun root s => { s with root }]

def IndexSettings.fields : List (Setting IndexSettings) := [
  replacing "exclude" Value.strings? fun excluded s => { s with excluded },
  replacing "include" Value.strings? fun included s => { s with included },
  replacing "watch" Value.bool? fun watch s => { s with watch },
  replacing "max_file_size" Value.nat? fun maxFileSize s => { s with maxFileSize },
  replacing "allow_invalid" Value.bool? fun allowInvalid s => { s with allowInvalid }]

def LibrarySettings.fields : List (Setting LibrarySettings) := [
  replacing "import_paths" Value.strings? fun paths s => { s with importPaths := paths.map Path.mk }]

def LogSettings.fields : List (Setting LogSettings) := [
  replacing "level" Value.string? fun level s => { s with level },
  replacing "format" Value.string? fun format s => { s with format }]

namespace Config

def fields : List (Setting Config) := [
  inner "project" project (fun project c => { c with project }) ProjectSettings.fields,
  inner "indexing" indexing (fun indexing c => { c with indexing }) IndexSettings.fields,
  inner "libraries" libraries (fun libraries c => { c with libraries }) LibrarySettings.fields,
  inner "logging" logging (fun logging c => { c with logging }) LogSettings.fields]

/-- The settings that a text makes. What it leaves out has its usual value. -/
def ofText (text : String) : Except ConfigError Config := do
  match (Toml.parse? text).bind fun table => assignAll? fields table.toValue {} with
  | none => throw .malformed
  | some c =>
    match c.fault? with
    | some fault => throw (.invalid fault)
    | none => return c

def ofFile (s : FileSystem) (file : Path) : Except ConfigError Config := do
  ofText (← (s.readText file).mapError .unreadable)

/-- The settings of the project in a directory: the usual ones if its file cannot be read. -/
def ofDirectory (s : FileSystem) (directory : Path) : Config :=
  match ofFile s (directory.join ⟨fileName⟩) with
  | .ok c => c
  | .error _ => {}

end Config
end QmlCodeModel
