import QmlCodeModel.Import.Version
import QmlCodeModel.Path
import QmlCodeModel.Text.Lines

/-! What a source says about other sources: the directives found while it is read, and the imports
that they are for a document in a directory. -/
namespace QmlCodeModel

/-- A directive as it stands in a source. -/
inductive Directive
  | libraryPragma
  | importFile (path : String) (qualifier : Option String) (place : LineColumn)
  | importModule (uri : String) (version : Option String) (qualifier : Option String)
    (place : LineColumn)
  deriving DecidableEq, Repr

/-- What an import brings in: a module, a script, or the components of a directory. -/
inductive ImportKind
  | library | file | directory
  deriving DecidableEq, Repr

structure Import where
  kind : ImportKind
  /-- The module, or the path as written. -/
  name : String
  /-- Where the file or directory is. -/
  path : Option Path
  version : ComponentVersion
  qualifier : Option String
  place : LineColumn
  deriving DecidableEq, Repr

/-- The import that a directive is. Paths are seen from the directory of the document, if there is
one. -/
def Directive.toImport? (directory : Option Path) : Directive → Option Import
  | .libraryPragma => none
  | .importFile path qualifier place =>
    some {
      kind := if ".js".toList.isSuffixOf path.toList then .file else .directory
      name := path
      path := some ((directory.map (·.join ⟨path⟩)).getD ⟨path⟩)
      version := {}
      qualifier, place }
  | .importModule uri version qualifier place =>
    some {
      kind := .library
      name := uri
      path := none
      version := (version.map ComponentVersion.parse).getD {}
      qualifier, place }

end QmlCodeModel
