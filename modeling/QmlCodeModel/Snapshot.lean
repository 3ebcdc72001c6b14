import QmlCodeModel.Document
import QmlCodeModel.Import.Graph
import QmlCodeModel.Library.Basic

/-! The documents and libraries of a project at one time. A document is stored under its file, under
its directory and in the import graph; these are kept in step. -/
namespace QmlCodeModel

structure Snapshot where
  /-- What relative paths are seen from. -/
  workingDirectory : Path := ⟨"/"⟩
  /-- The documents by file. -/
  documents : FiniteMap Path Document := {}
  /-- The documents by directory, in the order in which they were inserted. -/
  byDirectory : FiniteMap Path (List Document) := {}
  libraries : FiniteMap Path Library := {}
  imports : ImportGraph := {}

namespace Document

/-- What a document offers to those that import it. -/
def coreImport (d : Document) : CoreImport :=
  { importId := d.importId
    dialect := d.dialect
    exports := [⟨d.file, baseName d.file⟩]
    fingerprint := d.fingerprint }

end Document

namespace Snapshot

/-- Nothing is stored. -/
def empty (workingDirectory : Path) : Snapshot := { workingDirectory }

/-- The path under which a file or directory is stored. -/
def place (s : Snapshot) (p : Path) : Path := p.absolute s.workingDirectory

def document? (s : Snapshot) (file : Path) : Option Document := s.documents.get? (s.place file)

def documentsIn (s : Snapshot) (directory : Path) : List Document :=
  (s.byDirectory.get? (s.place directory)).getD []

def library? (s : Snapshot) (directory : Path) : Option Library :=
  s.libraries.get? (s.place directory)

def size (s : Snapshot) : Nat := s.documents.size

def isEmpty (s : Snapshot) : Bool := s.documents.isEmpty

/-- Takes a document out of its directory. A directory without documents is not kept. -/
def leaveDirectory (m : FiniteMap Path (List Document)) (d : Document) :
    FiniteMap Path (List Document) :=
  match m.get? d.directory with
  | none => m
  | some siblings =>
    match siblings.filter (·.file ≠ d.file) with
    | [] => m.erase d.directory
    | rest => m.insert d.directory rest

/-- Puts a document into its directory, after those that are there. -/
def enterDirectory (m : FiniteMap Path (List Document)) (d : Document) :
    FiniteMap Path (List Document) :=
  m.insert d.directory ((m.get? d.directory).getD [] ++ [d])

/-- Takes out the document that is stored under a file. -/
def remove (s : Snapshot) (file : Path) : Snapshot :=
  let file := s.place file
  match s.documents.get? file with
  | none => s
  | some d =>
    { s with
      documents := s.documents.erase file
      byDirectory := leaveDirectory s.byDirectory d
      imports := s.imports.removeCoreImport d.importId }

/-- Enters a document and what it imports into the graph. -/
def enterImports (g : ImportGraph) (d : Document) : ImportGraph :=
  d.imports.foldl (fun g i => g.addDependency d.importId i.target) (g.addCoreImport d.coreImport)

/-- Stores a document in place of the one that has its file. -/
def store (s : Snapshot) (d : Document) : Snapshot :=
  let s := s.remove d.file
  { s with
    documents := s.documents.insert d.file d
    byDirectory := enterDirectory s.byDirectory d
    imports := enterImports s.imports d }

/-- Stores a document, unless it has no program and such documents are not allowed. Says whether it
was stored. -/
def insert (s : Snapshot) (d : Document) (allowInvalid : Bool) : Bool × Snapshot :=
  if allowInvalid || d.hasProgram then (true, s.store d) else (false, s)

def insertLibrary (s : Snapshot) (directory : Path) (l : Library) : Snapshot :=
  { s with libraries := s.libraries.insert (s.place directory) l }

def removeLibrary (s : Snapshot) (directory : Path) : Snapshot :=
  { s with libraries := s.libraries.erase (s.place directory) }

/-- A new document with this source, not read yet. It takes over the revision of the one stored. -/
def documentFromSource (s : Snapshot) (source : String) (file : Path) (dialect : Dialect) :
    Document :=
  let d := Document.new s.workingDirectory file dialect
  let revision := ((s.document? file).map Document.revision).getD d.revision
  { d with revision }.setSource source

end Snapshot
end QmlCodeModel
