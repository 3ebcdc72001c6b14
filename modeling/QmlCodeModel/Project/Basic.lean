import QmlCodeModel.Config.Reading
import QmlCodeModel.Library.Registry
import QmlCodeModel.Snapshot

/-! A project: a directory with settings, and what is known of its documents and libraries. -/
namespace QmlCodeModel

/-- Why a file of a project is not read. -/
inductive LoadError
  | unreadable (fault : FileFault)
  | tooLarge (file : Path) (size most : Nat)
  | unknownDialect (file : Path)
  deriving DecidableEq, Repr

def LoadError.message : LoadError → String
  | .unreadable fault => "io: " ++ fault.message
  | .tooLarge file size most =>
    "file too large (" ++ toString size ++ " bytes, max " ++ toString most ++ "): " ++ file.text
  | .unknownDialect file => "no dialect for file: " ++ file.text

structure Project where
  root : Path
  config : Config := {}
  registry : LibraryRegistry := {}
  /-- What is known now. -/
  snapshot : Snapshot := {}

namespace Project

/-- The root of a project as a path that events about its files start with, if there is one. -/
def rootOf (s : FileSystem) (directory : Path) : Path :=
  let clean := directory.clean
  let root := if clean.isEmpty then ⟨"."⟩ else clean
  (s.canonical? root).getD root

def new (s : FileSystem) (directory : Path) (config : Config) : Project :=
  { root := rootOf s directory, config, snapshot := .empty s.workingDirectory }

/-- The project in a directory, with the settings from its file. -/
def ofDirectory (s : FileSystem) (directory : Path) : Project :=
  new s directory (.ofDirectory s directory)

/-- The directories outside the project that are searched for libraries. -/
def importPaths (p : Project) : List Path :=
  p.config.libraries.importPaths.map fun q =>
    if q.isAbsolute then q.clean else (p.root.join q).clean

/-- The file belongs to the project. A file below the root is judged by its path from there. -/
def admits (p : Project) (file : Path) : Bool :=
  p.config.admits ((file.relativeTo? p.root).getD file).text

/-- The files of the project. -/
def files (p : Project) (s : FileSystem) : List Path :=
  ((s.filesBelow p.root).filter p.admits).mergeSort Path.le

/-- The directories of libraries, in the project and below its import paths. -/
def libraryDirectories (p : Project) (s : FileSystem) : List Path :=
  let files := (p.root :: p.importPaths).flatMap s.filesBelow
  let directories := (files.filter (·.fileName? = some Qmldir.fileName)).filterMap Path.parent?
  directories.eraseDups.mergeSort Path.le

/-- The files that describe the types of these libraries. They can stand anywhere. -/
def typeInfoFiles (p : Project) (s : FileSystem) : List Path :=
  (p.libraryDirectories s).flatMap fun directory =>
    (Library.ofDirectory s directory).typeInfos.map fun name => directory.join ⟨name⟩

/-- Reads a file, if its size is within bounds. -/
def load (p : Project) (s : FileSystem) (file : Path) : Except LoadError Document := do
  let dialect := Dialect.ofPath file
  if dialect = .unknown then throw (.unknownDialect file)
  let size ← (s.size file).mapError .unreadable
  let most := p.config.indexing.maxFileSize
  if most < size then throw (.tooLarge file size most)
  let source ← (s.readText file).mapError .unreadable
  return .ofSource s.workingDirectory file dialect source

/-- Puts a document in place of the one with its file. If it is refused, there is none after that.
Says whether it was taken. -/
def publish (p : Project) (d : Document) : Bool × Project :=
  let (taken, snapshot) :=
    (p.snapshot.remove d.file).insert d p.config.indexing.allowInvalid
  (taken, { p with snapshot })

/-- Reads a file anew. Says whether there is a document of it after that. -/
def updateFile (p : Project) (s : FileSystem) (file : Path) : Except LoadError (Bool × Project) := do
  return p.publish (← p.load s file)

/-- Takes the source that an editor shows for a file, as one more revision. -/
def updateSource (p : Project) (file : Path) (source : String) (dialect : Option Dialect) :
    Bool × Project :=
  let dialect := dialect.getD (.ofPath file)
  p.publish (p.snapshot.documentFromSource source file dialect).bumpRevision.read

def removeFile (p : Project) (file : Path) : Project :=
  { p with snapshot := p.snapshot.remove file }

/-- Takes a library out and forgets what was read of it. -/
def removeLibrary (p : Project) (directory : Path) : Project :=
  { p with
    snapshot := p.snapshot.removeLibrary directory
    registry := (p.registry.invalidate directory).2 }

/-- Takes out all that is in a directory. Says how many documents that were. -/
def removeDirectory (p : Project) (directory : Path) : Nat × Project :=
  let files := p.snapshot.documents.keys.filter (·.isWithin directory)
  let libraries := p.snapshot.libraries.keys.filter (·.isWithin directory)
  (files.length, libraries.foldl removeLibrary (files.foldl removeFile p))

/-- Reads the library in a directory anew. -/
def refreshLibrary (p : Project) (s : FileSystem) (directory : Path) : Project :=
  let (library, registry) := (p.registry.invalidate directory).2.library s directory
  { p with
    registry
    snapshot :=
      if library.isValid then p.snapshot.insertLibrary directory library
      else p.snapshot.removeLibrary directory }

end Project

/-! Reading all files of a project, and counting how that went. -/

structure IndexCounts where
  files : Nat := 0
  /-- Documents that were taken. -/
  documents : Nat := 0
  /-- Documents that were read but not taken. -/
  rejected : Nat := 0
  /-- Files that were not read. -/
  failed : Nat := 0
  /-- Documents with errors, taken or not. -/
  withErrors : Nat := 0
  libraries : Nat := 0
  deriving DecidableEq, Repr

namespace Project

/-- Stores a document and counts it. -/
def indexDocument (allowInvalid : Bool) (counts : IndexCounts) (s : Snapshot) (d : Document) :
    IndexCounts × Snapshot :=
  let (taken, s) := s.insert d allowInvalid
  if taken then ({ counts with documents := counts.documents + 1 }, s)
  else ({ counts with rejected := counts.rejected + 1 }, s)

/-- Stores the library in a directory and counts it, if there is one. -/
def indexLibrary (s : FileSystem) (counts : IndexCounts) (p : Project) (directory : Path) :
    IndexCounts × Project :=
  let (library, registry) := p.registry.library s directory
  if library.isValid then
    ({ counts with libraries := counts.libraries + 1 },
      { p with registry, snapshot := p.snapshot.insertLibrary directory library })
  else (counts, { p with registry })

/-- Reads files, and the libraries of the project. -/
def indexFiles (p : Project) (s : FileSystem) (files : List Path) : IndexCounts × Project :=
  let documents := files.filterMap fun file => (p.load s file).toOption
  let counts : IndexCounts :=
    { files := files.length
      failed := files.length - documents.length
      withErrors := (documents.filter fun d => !d.isCorrect).length }
  let (counts, snapshot) := documents.foldl
    (fun (counts, s) d => indexDocument p.config.indexing.allowInvalid counts s d)
    (counts, p.snapshot)
  (p.libraryDirectories s).foldl
    (fun (counts, p) directory => indexLibrary s counts p directory) (counts, { p with snapshot })

/-- Reads all files of the project, and its libraries. -/
def index (p : Project) (s : FileSystem) : IndexCounts × Project :=
  p.indexFiles s (p.files s)

end Project
end QmlCodeModel
