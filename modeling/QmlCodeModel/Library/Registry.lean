import QmlCodeModel.FileSystem
import QmlCodeModel.Library.Basic

/-! Libraries in directories, and a store of those that have been read before. -/
namespace QmlCodeModel

/-- The name of the file that makes a directory a library. -/
def Qmldir.fileName : String := "qmldir"

namespace Library

/-- Reads the files that describe the types, by their names seen from the directory. Those that
cannot be read are named in one message. -/
def readTypeInfos (s : FileSystem) (directory : Path) (l : Library) : Library :=
  if l.typeInfos.isEmpty then l
  else
    let read := l.typeInfos.map fun name => (name, s.read (directory.join ⟨name⟩))
    let missing := read.filterMap fun
      | (name, .error fault) => some (name ++ ": " ++ fault.message)
      | _ => none
    { l with
      typeFingerprints := read.filterMap fun
        | (_, .ok bytes) => some (.ofBytes bytes.toList)
        | _ => none
      dumpStatus := if missing.isEmpty then .dumpDone else .typeInfoFileError
      dumpError := "; ".intercalate missing }

/-- What a directory holds, as it is now. -/
def ofDirectory (s : FileSystem) (directory : Path) : Library :=
  if !s.isDirectory directory then { status := .doesNotExist }
  else
    match s.readText (directory.join ⟨Qmldir.fileName⟩) with
    | .error _ => { status := .notLibrary }
    | .ok text => (ofQmldir (.parse text)).readTypeInfos s directory

end Library

/-- A library as it was read, with the stamp that its `qmldir` file had. -/
structure ReadLibrary where
  library : Library
  stamp : FileStamp
  deriving DecidableEq, Repr

/-- The libraries that have been read, by their directories. -/
structure LibraryRegistry where
  libraries : FiniteMap Path ReadLibrary := {}
  deriving Repr, Inhabited

namespace LibraryRegistry

def size (r : LibraryRegistry) : Nat := r.libraries.size

def isEmpty (r : LibraryRegistry) : Bool := r.libraries.isEmpty

/-- The library in a directory. It is read again only if its `qmldir` file has another stamp. -/
def library (r : LibraryRegistry) (s : FileSystem) (directory : Path) : Library × LibraryRegistry :=
  let directory := directory.clean
  let stamp := s.stamp (directory.join ⟨Qmldir.fileName⟩)
  match (r.libraries.get? directory).filter (·.stamp = stamp) with
  | some known => (known.library, r)
  | none =>
    let library := Library.ofDirectory s directory
    (library, ⟨r.libraries.insert directory ⟨library, stamp⟩⟩)

/-- Forgets a directory. Says whether it was known. -/
def invalidate (r : LibraryRegistry) (directory : Path) : Bool × LibraryRegistry :=
  (r.libraries.contains directory.clean, ⟨r.libraries.erase directory.clean⟩)

end LibraryRegistry
end QmlCodeModel
