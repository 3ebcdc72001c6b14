import QmlCodeModel.Dialect
import QmlCodeModel.FiniteMap
import QmlCodeModel.Fingerprint.Basic

/-! Which documents import which files, directories and modules. Documents and what they import are
named by texts: an absolute path, or the name of a module. -/
namespace QmlCodeModel

/-- A component that a document offers to others. -/
structure Export where
  path : Path
  typeName : String
  deriving DecidableEq, Repr

/-- What a document offers to those that import it. -/
structure CoreImport where
  importId : String
  dialect : Dialect
  exports : List Export
  fingerprint : Fingerprint
  deriving DecidableEq, Repr

structure ImportGraph where
  coreImports : FiniteMap String CoreImport := {}
  /-- What each document imports, without repetition. -/
  dependencies : FiniteMap String (List String) := {}
  deriving DecidableEq, Repr

/-- Sorts texts by their characters. -/
def sortTexts (texts : List String) : List String := texts.mergeSort fun a b => a ≤ b

namespace ImportGraph

def addCoreImport (g : ImportGraph) (c : CoreImport) : ImportGraph :=
  { g with coreImports := g.coreImports.insert c.importId c }

/-- Takes out a document with all that it imports. Others may still import it. -/
def removeCoreImport (g : ImportGraph) (importId : String) : ImportGraph :=
  { coreImports := g.coreImports.erase importId, dependencies := g.dependencies.erase importId }

def coreImport? (g : ImportGraph) (importId : String) : Option CoreImport :=
  g.coreImports.get? importId

/-- All that a document imports. -/
def targets (g : ImportGraph) (importer : String) : List String :=
  (g.dependencies.get? importer).getD []

def addDependency (g : ImportGraph) (importer target : String) : ImportGraph :=
  { g with
    dependencies := g.dependencies.insert importer ((g.targets importer).insert target) }

/-- What a document imports, sorted. -/
def dependenciesOf (g : ImportGraph) (importer : String) : List String :=
  sortTexts (g.targets importer)

/-- Who imports a target, sorted. -/
def dependentsOf (g : ImportGraph) (target : String) : List String :=
  sortTexts (g.dependencies.keys.filter fun importer => target ∈ g.targets importer)

/-- How many documents have been entered. -/
def size (g : ImportGraph) : Nat := g.coreImports.size

def isEmpty (g : ImportGraph) : Bool := g.coreImports.isEmpty

end ImportGraph

/-- The text that stands for what is imported. -/
def Import.target (i : Import) : String :=
  match i.kind, i.path with
  | .library, _ | _, none => i.name
  | _, some path => path.text

end QmlCodeModel
