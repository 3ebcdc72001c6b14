import QmlCodeModel.Import.Version
import QmlCodeModel.Text.CharClass.LetterCase

/-! The `qmldir` file of a library: one record a line, words between blanks, and comments from a hash
sign on. A line that is no record is reported and left out. -/
namespace QmlCodeModel

/-- A type that a library brings in. -/
structure Component where
  typeName : String
  /-- The file that the type is defined in. -/
  fileName : String
  version : ComponentVersion := {}
  singleton : Bool := false
  internal : Bool := false
  deriving DecidableEq, Repr

structure Plugin where
  name : String
  path : Option String := none
  deriving DecidableEq, Repr

/-- What a line says. -/
inductive QmldirRecord
  | module (uri : String)
  | plugin (plugin : Plugin)
  | className (name : String)
  | typeInfo (file : String)
  | designerSupported
  | depends (uri : String) (version : ComponentVersion)
  | component (component : Component)
  deriving DecidableEq, Repr

/-- What is wrong with a line. -/
inductive QmldirFault
  | secondModule
  | invalidVersion (text : String)
  | unknownDirective (word : String)
  deriving DecidableEq, Repr

def QmldirFault.message : QmldirFault → String
  | .secondModule => "only one module identifier directive may be defined"
  | .invalidVersion text => "invalid version " ++ text
  | .unknownDirective word => "unknown directive `" ++ word ++ "`"

/-- The contents of a `qmldir` file. -/
structure Qmldir where
  module? : Option String := none
  components : List Component := []
  plugins : List Plugin := []
  typeInfos : List String := []
  depends : List (String × ComponentVersion) := []
  className? : Option String := none
  designerSupported : Bool := false
  /-- The faults, each with the number of its line, which counts from one in 32 bits. -/
  faults : List (UInt32 × QmldirFault) := []
  deriving DecidableEq, Repr

/-- A version of two whole numbers below 2³², with a dot between them and nothing else. -/
def ComponentVersion.ofNumbers? (text : String) : Option ComponentVersion := do
  let (major, minor) := splitOnce '.' text.toList
  let minor ← minor
  if major.all Char.isDigit && minor.all Char.isDigit then
    return ⟨some (← word32? 10 major), some (← word32? 10 minor)⟩
  else none

namespace QmldirRecord

/-- A component with a version. -/
def versioned (typeName version fileName : String) (singleton : Bool) :
    Except QmldirFault QmldirRecord :=
  match ComponentVersion.ofNumbers? version with
  | some v => .ok (.component { typeName, fileName, version := v, singleton })
  | none => .error (.invalidVersion version)

/-- A component without a version. Its type name must have a capital. -/
def plain (typeName fileName : String) : Except QmldirFault QmldirRecord :=
  if startsUppercase typeName then .ok (.component { typeName, fileName })
  else .error (.unknownDirective typeName)

/-- What the words of a line say. A line without words says nothing. -/
def ofWords? : List String → Option (Except QmldirFault QmldirRecord)
  | [] => none
  | ["module", uri] => some (.ok (.module uri))
  | ["plugin", name] => some (.ok (.plugin { name }))
  | ["plugin", name, path] => some (.ok (.plugin { name, path := some path }))
  | ["classname", name] => some (.ok (.className name))
  | ["typeinfo", file] => some (.ok (.typeInfo file))
  | ["designersupported"] => some (.ok .designerSupported)
  | ["depends", uri, version] =>
    some <| match ComponentVersion.ofNumbers? version with
      | some v => .ok (.depends uri v)
      | none => .error (.invalidVersion version)
  | ["internal", typeName, fileName] =>
    some (.ok (.component { typeName, fileName, internal := true }))
  | ["singleton", typeName, version, fileName] => some (versioned typeName version fileName true)
  | ["singleton", typeName, fileName] =>
    some (.ok (.component { typeName, fileName, singleton := true }))
  | [typeName, version, fileName] => some (versioned typeName version fileName false)
  | [typeName, fileName] => some (plain typeName fileName)
  | word :: _ => some (.error (.unknownDirective word))

/-- What a line says, its comment left out. -/
def ofLine? (line : List Char) : Option (Except QmldirFault QmldirRecord) :=
  ofWords? ((words (splitOnce '#' line).1).map String.ofList)

end QmldirRecord

namespace Qmldir

def report (q : Qmldir) (line : UInt32) (fault : QmldirFault) : Qmldir :=
  { q with faults := q.faults ++ [(line, fault)] }

/-- Enters what a line says. Only the first module counts. -/
def enter (q : Qmldir) (line : UInt32) : QmldirRecord → Qmldir
  | .module uri =>
    if q.module?.isSome then q.report line .secondModule else { q with module? := some uri }
  | .plugin plugin => { q with plugins := q.plugins ++ [plugin] }
  | .className name => { q with className? := some name }
  | .typeInfo file => { q with typeInfos := q.typeInfos ++ [file] }
  | .designerSupported => { q with designerSupported := true }
  | .depends uri version => { q with depends := q.depends ++ [(uri, version)] }
  | .component component => { q with components := q.components ++ [component] }

/-- Enters a line. -/
def enterLine (q : Qmldir) (line : UInt32) (text : List Char) : Qmldir :=
  match QmldirRecord.ofLine? text with
  | none => q
  | some (.ok record) => q.enter line record
  | some (.error fault) => q.report line fault

def parse (source : String) : Qmldir :=
  (splitOnChar '\n' source.toList).zipIdx.foldl (fun q (text, index) => q.enterLine (.ofNat index + 1) text) {}

def hasFaults (q : Qmldir) : Bool := !q.faults.isEmpty

end Qmldir
end QmlCodeModel
