import QmlCodeModel.Fingerprint.Basic
import QmlCodeModel.Library.Qmldir

/-! What is known about a directory that may be a library, and the fingerprint of that. -/
namespace QmlCodeModel

inductive LibraryStatus
  | doesNotExist | notLibrary | found
  deriving DecidableEq, Repr

namespace LibraryStatus

def label : LibraryStatus → String
  | .doesNotExist => "does_not_exist"
  | .notLibrary => "not_library"
  | .found => "found"

def all : List LibraryStatus := [.doesNotExist, .notLibrary, .found]

/-- The byte that stands for a status in a fingerprint. -/
def code : LibraryStatus → UInt8
  | .doesNotExist => 0
  | .notLibrary => 1
  | .found => 2

end LibraryStatus

/-- How it went with the descriptions of the types of a library. -/
inductive DumpStatus
  | noTypeInfo | dumpDone | dumpError | typeInfoFileError
  deriving DecidableEq, Repr

namespace DumpStatus

def label : DumpStatus → String
  | .noTypeInfo => "no_type_info"
  | .dumpDone => "dump_done"
  | .dumpError => "dump_error"
  | .typeInfoFileError => "type_info_file_error"

def all : List DumpStatus := [.noTypeInfo, .dumpDone, .dumpError, .typeInfoFileError]

/-- The byte that stands for a status in a fingerprint. -/
def code : DumpStatus → UInt8
  | .noTypeInfo => 0
  | .dumpDone => 1
  | .dumpError => 2
  | .typeInfoFileError => 3

end DumpStatus

structure Library where
  status : LibraryStatus
  module? : Option String := none
  components : List Component := []
  plugins : List Plugin := []
  /-- The files that describe the types of the library. -/
  typeInfos : List String := []
  /-- What tells the contents of these files. -/
  typeFingerprints : List Fingerprint := []
  dumpStatus : DumpStatus := .noTypeInfo
  dumpError : String := ""
  deriving DecidableEq, Repr

/-- A number as so many bytes, the lowest first. -/
def bytesOfNat : Nat → Nat → List UInt8
  | 0, _ => []
  | count + 1, n => UInt8.ofNat n :: bytesOfNat count (n / 256)

namespace Fingerprint

/-- Compares the bytes from the first on. -/
def le (f g : Fingerprint) : Bool :=
  (List.compareLex compare (f.bytes.toList.map UInt8.toNat) (g.bytes.toList.map UInt8.toNat)).isLE

/-- A length in a fingerprint: eight bytes. -/
def lengthBytes (n : Nat) : List UInt8 := bytesOfNat 8 n

/-- A text in a fingerprint, after its length. -/
def textBytes (text : String) : List UInt8 :=
  let bytes := text.toUTF8.toList
  lengthBytes bytes.length ++ bytes

/-- A list in a fingerprint, after its length. -/
def listBytes {α : Type} (bytes : α → List UInt8) (xs : List α) : List UInt8 :=
  lengthBytes xs.length ++ xs.flatMap bytes

/-- A number that may be missing: four bytes, and the greatest number for none. -/
def numberBytes (n : Option Nat) : List UInt8 := bytesOfNat 4 (n.getD 0xffffffff)

end Fingerprint

namespace Component

/-- The bytes that stand for a component in a fingerprint. -/
def bytes (c : Component) : List UInt8 :=
  Fingerprint.textBytes c.fileName ++ Fingerprint.numberBytes c.version.major ++
    Fingerprint.numberBytes c.version.minor ++ Fingerprint.textBytes c.typeName ++
    [(if c.singleton then 1 else 0) ||| (if c.internal then 2 else 0)]

end Component

/-- The bytes that stand for a plugin in a fingerprint. No path counts as an empty one. -/
def Plugin.bytes (p : Plugin) : List UInt8 :=
  Fingerprint.textBytes (p.path.getD "") ++ Fingerprint.textBytes p.name

namespace Library

/-- The library that a `qmldir` file describes. -/
def ofQmldir (q : Qmldir) : Library :=
  { status := .found
    module? := q.module?
    components := q.components
    plugins := q.plugins
    typeInfos := q.typeInfos }

def isValid (l : Library) : Bool := l.status == .found

/-- The bytes that the fingerprint is taken of. Those of the type descriptions are sorted, so that
their order does not count. -/
def bytes (l : Library) : List UInt8 :=
  l.status.code :: Fingerprint.listBytes Component.bytes l.components ++
    Fingerprint.listBytes Plugin.bytes l.plugins ++
    Fingerprint.listBytes Fingerprint.textBytes l.typeInfos ++
    Fingerprint.listBytes (·.bytes.toList) (l.typeFingerprints.mergeSort Fingerprint.le) ++
    l.dumpStatus.code :: Fingerprint.textBytes l.dumpError

def fingerprint (l : Library) : Fingerprint := .ofBytes l.bytes

end Library
end QmlCodeModel
