import QmlCodeModel.Dialect

/-! What a user can set for a project. -/
namespace QmlCodeModel

/-! Patterns that choose files by their paths. -/

/-- The part occurs in the text. -/
def occursIn (part : List Char) : List Char → Bool
  | [] => part.isEmpty
  | c :: rest => part.isPrefixOf (c :: rest) || occursIn part rest

inductive PathPattern
  /-- Some directory on the way has this name. -/
  | below (directory : List Char)
  /-- The path ends with this text. -/
  | ending (text : List Char)
  /-- This text occurs in the path. -/
  | part (text : List Char)
  deriving DecidableEq, Repr

namespace PathPattern

/-- A directory is written with a slash behind it, or between stars and slashes; an ending is
written with a star in front of its dot. All else is a part. -/
def ofText (text : List Char) : PathPattern :=
  match ['/'].isSuffixOf? text with
  | some directory => .below directory
  | none =>
    match ['*'].isPrefixOf? text with
    | some ('.' :: rest) => .ending ('.' :: rest)
    | _ =>
      match ("**/".toList.isPrefixOf? text).bind "/**".toList.isSuffixOf? with
      | some directory => .below directory
      | none => .part text

def admits : PathPattern → List Char → Bool
  | .below directory, path =>
    (directory ++ ['/']).isPrefixOf path || occursIn ('/' :: directory ++ ['/']) path
  | .ending text, path => text.isSuffixOf path
  | .part text, path => occursIn text path

end PathPattern

structure ProjectSettings where
  name : String := "unnamed-project"
  root : String := "."
  deriving DecidableEq, Repr

structure IndexSettings where
  /-- Patterns of files that are left out. -/
  excluded : List String :=
    ["target/", "build/", "node_modules/", ".git/", "*.qmlc", "**/__tests__/**"]
  /-- Patterns of which a file needs one. Without any, all files that are not left out are taken. -/
  included : List String := []
  /-- Keep on watching the files. -/
  watch : Bool := false
  /-- The size in bytes up to which files are read. -/
  maxFileSize : Nat := 4 * 1024 * 1024
  /-- Keep documents without a program. -/
  allowInvalid : Bool := false
  deriving DecidableEq, Repr

structure LibrarySettings where
  /-- Directories that are searched for libraries. -/
  importPaths : List Path := []
  deriving DecidableEq, Repr

structure LogSettings where
  level : String := "info"
  format : String := "pretty"
  deriving DecidableEq, Repr

structure Config where
  project : ProjectSettings := {}
  indexing : IndexSettings := {}
  libraries : LibrarySettings := {}
  logging : LogSettings := {}
  deriving DecidableEq, Repr, Inhabited

/-- What is wrong with the settings. -/
inductive ConfigFault
  | emptyName
  | noFileSize
  | unknownLevel (level : String)
  | unknownFormat (format : String)
  deriving DecidableEq, Repr

def ConfigFault.message : ConfigFault → String
  | .emptyName => "project name cannot be empty"
  | .noFileSize => "max file size must be greater than 0"
  | .unknownLevel level => "invalid log level: " ++ level
  | .unknownFormat format => "invalid log format: " ++ format

namespace Config

/-- The name of the file in which a project keeps its settings. -/
def fileName : String := ".qmlscope.toml"

def logLevels : List String := ["error", "warn", "info", "debug", "trace"]

def logFormats : List String := ["compact", "pretty", "json"]

/-- The first fault of the settings. -/
def fault? (c : Config) : Option ConfigFault :=
  if c.project.name.isEmpty then some .emptyName
  else if c.indexing.maxFileSize = 0 then some .noFileSize
  else if c.logging.level ∉ logLevels then some (.unknownLevel c.logging.level)
  else if c.logging.format ∉ logFormats then some (.unknownFormat c.logging.format)
  else none

/-- One of the patterns admits the path. -/
def matchesAny (patterns : List String) (path : String) : Bool :=
  patterns.any fun pattern => (PathPattern.ofText pattern.toList).admits path.toList

/-- The file belongs to the project: its dialect is known, and the patterns let it in. -/
def admits (c : Config) (path : String) : Bool :=
  Dialect.ofPath ⟨path⟩ != .unknown && !matchesAny c.indexing.excluded path &&
    (c.indexing.included.isEmpty || matchesAny c.indexing.included path)

end Config

end QmlCodeModel
