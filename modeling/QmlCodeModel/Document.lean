import QmlCodeModel.Dialect
import QmlCodeModel.Fingerprint.Basic
import QmlCodeModel.Symbols.Tables

/-! A document: a source under the name of a file, and what has been made of it. -/
namespace QmlCodeModel

/-- What has been made of a source. -/
structure Reading where
  parse : Parse
  symbols : Symbols
  /-- All messages, by offset; at one offset those of the grammar first. -/
  diagnostics : List Diagnostic

/-- Reads the source of a document in a directory. The empty directory is none. -/
def Reading.of? (form : SourceForm) (directory : Path) (source : String) : Option Reading := do
  let parse ← parse? form source
  let directory := if directory.isEmpty then none else some directory
  let symbols := parse.symbols (LineIndex.ofText source.toList) directory
  return { parse, symbols, diagnostics := Diagnostic.sort (parse.diagnostics ++ symbols.diagnostics) }

structure Document where
  /-- The absolute path of the file. -/
  file : Path
  /-- The directory of the file. -/
  directory : Path
  /-- The name under which other documents use this one as a type. -/
  componentName : String
  dialect : Dialect
  source : String := ""
  fingerprint : Fingerprint := .ofText ""
  /-- How often an editor has changed the source. -/
  revision : Nat := 0
  /-- What has been made of the source, once it has been read. -/
  reading : Option Reading := none

namespace Document

/-- The last number a revision can have. -/
def maxRevision : Nat := 0xffffffff

/-- The name of a file up to its first dot. -/
def baseName (file : Path) : String :=
  String.ofList <| (((file.fileName?.getD "").toList).takeWhile (· != '.'))

/-- Only a name with a capital can be that of a type. -/
def componentNameOf (file : Path) (dialect : Dialect) : String :=
  let name := baseName file
  if dialect.isQmlLike && startsUppercase name then name else ""

/-- A document without a source yet. Its file is seen from the working directory. -/
def new (workingDirectory file : Path) (dialect : Dialect) : Document :=
  let file := file.absolute workingDirectory
  { file
    directory := file.parent?.getD ⟨""⟩
    componentName := componentNameOf file dialect
    dialect }

/-- Replaces the source. What was made of the one before is dropped. -/
def setSource (d : Document) (source : String) : Document :=
  { d with source, fingerprint := .ofText source, reading := none }

/-- Reads the source in some form. One that would be read for ever stays unread. -/
def readAs (d : Document) (form : SourceForm) : Document :=
  { d with reading := Reading.of? form d.directory d.source }

/-- Reads the source in the form of its dialect. -/
def read (d : Document) : Document := d.readAs d.dialect.form

/-- A document whose source is read at once. -/
def ofSource (workingDirectory file : Path) (dialect : Dialect) (source : String) : Document :=
  ((new workingDirectory file dialect).setSource source).read

/-- Counts a change in an editor. At its last number the revision stays. -/
def bumpRevision (d : Document) : Document :=
  { d with revision := min (d.revision + 1) maxRevision }

/-- The text that stands for the document among the imports of others. -/
def importId (d : Document) : String := d.file.text

def isRead (d : Document) : Bool := d.reading.isSome

/-- The source was read without an error. -/
def isCorrect (d : Document) : Bool := d.reading.any (·.parse.success)

def diagnostics (d : Document) : List Diagnostic := (d.reading.map Reading.diagnostics).getD []

def symbols? (d : Document) : Option Symbols := d.reading.map Reading.symbols

def imports (d : Document) : List Import := (d.symbols?.map Symbols.imports).getD []

/-- The source is a script library. -/
def isLibrary (d : Document) : Bool := d.symbols?.any Symbols.isLibrary

/-- The root of the tree, if the source was read in this form. -/
def root? (d : Document) (form : SourceForm) : Option Node :=
  (d.reading.filter (·.parse.form == form)).map (·.parse.root)

/-- The source was read as a document of objects or as a script. -/
def hasProgram (d : Document) : Bool := (d.root? .qml).isSome || (d.root? .program).isSome

end Document
end QmlCodeModel
