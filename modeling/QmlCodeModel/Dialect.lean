import QmlCodeModel.Grammar.Source
import QmlCodeModel.Path

/-! The dialects of documents, and how the name of a file tells them. -/
namespace QmlCodeModel

inductive Dialect
  | javascript | qml | qmlTypeInfo | qmlProject | json
  /-- The name of the file tells nothing. -/
  | unknown
  /-- A file that an editor shows as plain text. -/
  | noLanguage
  deriving DecidableEq, Repr, Inhabited

namespace Dialect

/-- All dialects, in the order in which they are listed. -/
def all : List Dialect :=
  [.javascript, .qml, .qmlTypeInfo, .qmlProject, .json, .unknown, .noLanguage]

/-- The name by which a user knows a dialect. -/
def label : Dialect → String
  | .javascript => "javascript"
  | .qml => "qml"
  | .qmlTypeInfo => "qmltypeinfo"
  | .qmlProject => "qmlproject"
  | .json => "json"
  | .unknown => "unknown"
  | .noLanguage => "nolanguage"

/-- The name of a dialect in data. -/
def tag : Dialect → String
  | .javascript => "Javascript"
  | .qml => "Qml"
  | .qmlTypeInfo => "QmlTypeInfo"
  | .qmlProject => "QmlProject"
  | .json => "Json"
  | .unknown => "Unknown"
  | .noLanguage => "NoLanguage"

/-- The ending of the file names of a dialect, without its dot. -/
def extension? : Dialect → Option String
  | .javascript => some "js"
  | .qml => some "qml"
  | .qmlTypeInfo => some "qmltypes"
  | .qmlProject => some "qmlproject"
  | .json => some "json"
  | .unknown | .noLanguage => none

def ofExtension (extension : String) : Dialect :=
  (all.find? (·.extension? == some extension)).getD .unknown

def ofPath (p : Path) : Dialect := (p.extension?.map ofExtension).getD .unknown

/-- The dialect that a user names, with letters of either case. -/
def ofLabel? (text : String) : Option Dialect :=
  let lower := text.map Char.toLower
  if lower == "js" then some .javascript else all.find? (·.label == lower)

/-- The message for a name that no dialect has. -/
def unknownLabel (text : String) : String := "unknown dialect: " ++ text

/-- Documents of objects. -/
def isQmlLike : Dialect → Bool
  | .qml | .qmlTypeInfo => true
  | _ => false

/-- What the sources of a dialect are read as. -/
def form : Dialect → SourceForm
  | .qml | .qmlTypeInfo | .qmlProject => .qml
  | .json => .expression
  | .javascript | .unknown | .noLanguage => .program

/-- The dialect of a file that is opened in an editor: a script, a document of objects, or none. A
file without a name will be a document of objects. -/
def ofEditedPath (p : Path) : Dialect :=
  match ofPath p with
  | .javascript => .javascript
  | .qml => .qml
  | _ => if p.isEmpty then .qml else .noLanguage

end Dialect
end QmlCodeModel
