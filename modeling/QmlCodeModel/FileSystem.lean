import QmlCodeModel.FileTree
import QmlCodeModel.Path

/-! What a program can ask about files by their paths. -/
namespace QmlCodeModel

/-- Why a file cannot be read. -/
inductive FileFault
  | notFound
  /-- A step of the path leads through something that is no directory. -/
  | notDirectory
  | isDirectory
  | nameTooLong
  /-- The path holds the character that ends names for the system. -/
  | nulInPath
  /-- The bytes are no text. -/
  | notText
  deriving DecidableEq, Repr

namespace FileFault

def message : FileFault → String
  | .notFound => "No such file or directory (os error 2)"
  | .notDirectory => "Not a directory (os error 20)"
  | .isDirectory => "Is a directory (os error 21)"
  | .nameTooLong => "File name too long (os error 36)"
  | .nulInPath => "file name contained an unexpected NUL byte"
  | .notText => "stream did not contain valid UTF-8"

end FileFault

/-- The most bytes that a name can have. -/
def maxNameSize : Nat := 255

/-- The most bytes that a path can have. -/
def maxPathSize : Nat := 4095

/-- The size that the system gives for a directory. -/
def directorySize : Nat := 4096

/-- What tells whether something has been written anew. -/
inductive FileStamp
  | missing
  | directory
  | written (time : Int)
  deriving DecidableEq, Repr

/-- A tree of files, with the directory that relative paths start from. -/
structure FileSystem where
  tree : FileTree := .empty
  /-- An absolute path. -/
  workingDirectory : Path := ⟨"/"⟩

namespace FileTree

/-- Follows the parts between the slashes of a path. Each of them, also an empty one, needs a
directory that it is seen from. -/
def follow (t : FileTree) : Location → List (List Char) → Except FileFault Location
  | here, [] => .ok here
  | here, part :: rest =>
    let name := String.ofList part
    if !t.isDirectory here then .error .notDirectory
    else if part = [] || part = ['.'] then t.follow here rest
    else if part = ['.', '.'] then t.follow here.tail rest
    else if maxNameSize < name.utf8ByteSize then .error .nameTooLong
    else if (t.entry? (name :: here)).isNone then .error .notFound
    else t.follow (name :: here) rest

/-- Follows the parts of a path, and makes the directories that are missing. -/
def enter? (t : FileTree) : Location → List (List Char) → Option (FileTree × Location)
  | here, [] => some (t, here)
  | here, part :: rest =>
    if part = [] || part = ['.'] then t.enter? here rest
    else if part = ['.', '.'] then t.enter? here.tail rest
    else do
      let name := String.ofList part
      let t ← t.makeDirectory? name here
      t.enter? (name :: here) rest

end FileTree

namespace FileSystem

instance : Inhabited FileSystem := ⟨{}⟩

/-- The parts of a path between its slashes, from the root on. -/
def partsOf (s : FileSystem) (p : Path) : List (List Char) :=
  splitOnChar '/' (s.workingDirectory.join p).text.toList

/-- Where a path leads. -/
def locate (s : FileSystem) (p : Path) : Except FileFault Location :=
  if p.text.toList.contains '\x00' then .error .nulInPath
  else if p.isEmpty then .error .notFound
  else if maxPathSize < p.text.utf8ByteSize then .error .nameTooLong
  else s.tree.follow [] (s.partsOf p)

def entry (s : FileSystem) (p : Path) : Except FileFault FileEntry := do
  match s.tree.entry? (← s.locate p) with
  | some e => .ok e
  | none => .error .notFound

def contains (s : FileSystem) (p : Path) : Bool := (s.locate p).isOk

def isFile (s : FileSystem) (p : Path) : Bool :=
  match s.entry p with
  | .ok (.file _ _) => true
  | _ => false

def isDirectory (s : FileSystem) (p : Path) : Bool :=
  match s.entry p with
  | .ok .directory => true
  | _ => false

/-- The size in bytes. -/
def size (s : FileSystem) (p : Path) : Except FileFault Nat := do
  match ← s.entry p with
  | .file bytes _ => return bytes.size
  | .directory => return directorySize

def read (s : FileSystem) (p : Path) : Except FileFault ByteArray := do
  match ← s.entry p with
  | .file bytes _ => return bytes
  | .directory => throw .isDirectory

def readText (s : FileSystem) (p : Path) : Except FileFault String := do
  match String.fromUTF8? (← s.read p) with
  | some text => return text
  | none => throw .notText

def stamp (s : FileSystem) (p : Path) : FileStamp :=
  match s.entry p with
  | .ok (.file _ modified) => .written modified
  | .ok .directory => .directory
  | .error _ => .missing

/-- The absolute path of a location, without detours. -/
def pathOf (l : Location) : Path := ⟨"/" ++ "/".intercalate l.reverse⟩

/-- The absolute path without detours, if the path leads somewhere. -/
def canonical? (s : FileSystem) (p : Path) : Option Path :=
  match s.locate p with
  | .ok l => some (pathOf l)
  | .error _ => none

/-- The files at and below a path, as paths that start with it. -/
def filesBelow (s : FileSystem) (p : Path) : List Path :=
  match s.locate p with
  | .ok l => (s.tree.filesBelow l).map (List.foldl (fun p name => p.join ⟨name⟩) p)
  | .error _ => []

/-- Changes the tree, if there is a tree to change it to. -/
def changeTree (s : FileSystem) (tree : Option FileTree) : FileSystem :=
  { s with tree := tree.getD s.tree }

/-- Makes a directory and those around it that are missing. -/
def makeDirectory (s : FileSystem) (p : Path) : FileSystem :=
  s.changeTree ((s.tree.enter? [] (s.partsOf p)).map Prod.fst)

/-- Writes a file, and makes the directories around it that are missing. -/
def write (s : FileSystem) (p : Path) (bytes : ByteArray) (modified : Int) : FileSystem :=
  let parts := s.partsOf p
  s.changeTree do
    let (tree, around) ← s.tree.enter? [] parts.dropLast
    let name ← parts.getLast?
    if name ∈ [[], ['.'], ['.', '.']] then none
    else tree.put? (String.ofList name) around (.file bytes modified)

/-- Takes out a file, or a directory with all that is in it. -/
def remove (s : FileSystem) (p : Path) : FileSystem :=
  match s.locate p with
  | .ok l => { s with tree := s.tree.remove l }
  | .error _ => s

end FileSystem
end QmlCodeModel
