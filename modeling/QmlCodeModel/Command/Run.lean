import QmlCodeModel.Command.Basic
import QmlCodeModel.Data.Basic
import QmlCodeModel.Data.Outline
import QmlCodeModel.Data.Project
import QmlCodeModel.OpenDocument
import QmlCodeModel.Text.Span

/-! What the commands do and print. -/
namespace QmlCodeModel

def programName : String := "qmlscope"

def programVersion : String := "0.1.0"

/-- How a run of the program ends. -/
structure Outcome where
  /-- Zero if all went well. -/
  code : Nat := 0
  output : String := ""
  /-- What is reported as the reason of a failure. -/
  report : Option String := none
  /-- What is wrong with the command line. -/
  usageFault : Option UsageFault := none
  /-- The project whose files are watched from then on. -/
  watched : Option Project := none

/-- Why a command fails. -/
inductive CommandError
  | unreadable (file : Path) (fault : FileFault)
  | noDialect (file : Path)
  /-- An editor would not open the file as a document of objects or as a script. -/
  | notEdited (file : Path)
  deriving DecidableEq, Repr

def CommandError.message : CommandError → String
  | .unreadable file fault =>
    "failed to read " ++ file.text ++ "\n\nCaused by:\n    " ++ fault.message
  | .noDialect file => "no dialect for " ++ file.text ++ ", pass --dialect"
  | .notEdited file => file.text ++ " is neither a QML nor a JavaScript file"

/-- Lines of output, each with its end. -/
def unlines (lines : List String) : String := String.join (lines.map (· ++ "\n"))

/-- The name of a kind of range for a reader. -/
def RangeKind.title : RangeKind → String
  | .object => "Object"
  | .objectBinding => "ObjectBinding"
  | .groupedBinding => "GroupedBinding"
  | .arrayBinding => "ArrayBinding"
  | .scriptBlock => "ScriptBlock"
  | .function => "Function"

namespace Command

def readSource (s : FileSystem) (file : Path) : Except CommandError String :=
  (s.readText file).mapError (.unreadable file)

/-- Opens a file as an editor does, and reads it. -/
def openFile (s : FileSystem) (file : Path) : Except CommandError OpenDocument := do
  let source ← readSource s file
  let document := Document.edited s.workingDirectory file
  if document.dialect = .noLanguage then throw (.notEdited file)
  return ⟨(document.setSource source).read, 0⟩

/-- Prints data, or else lines. -/
def print (format : OutputFormat) (d : Data) (lines : List String) : String :=
  match format with
  | .json => d.pretty ++ "\n"
  | .text => unlines lines

def importLine (i : Import) : String :=
  "  import " ++ i.name ++ " " ++ i.version.render ++ (i.qualifier.map (" as " ++ ·)).getD ""

def parseData (file : Path) (d : Document) : Data :=
  .record [("file", data file), ("dialect", data d.dialect.tag),
    ("fingerprint", data d.fingerprint), ("parsed_correctly", data d.isCorrect),
    ("is_library", data d.isLibrary), ("imports", data d.imports),
    ("diagnostics", data d.diagnostics)]

def parseLines (file : Path) (d : Document) : List String :=
  [file.text ++ " (" ++ d.dialect.label ++ ")", "Fingerprint: " ++ d.fingerprint.toHex,
    "Parsed correctly: " ++ toString d.isCorrect] ++
  (if d.isLibrary then ["Library script (.pragma library)"] else []) ++
  d.imports.map importLine ++
  (if d.diagnostics.isEmpty then ["No diagnostics"] else []) ++
  d.diagnostics.map fun m => "  " ++ m.render

def runParse (s : FileSystem) (file : Path) (dialect : Option Dialect) (expression : Bool)
    (format : OutputFormat) : Except CommandError Outcome := do
  let dialect := dialect.getD (.ofPath file)
  if dialect = .unknown && !expression then throw (.noDialect file)
  let unread := (Document.new s.workingDirectory file dialect).setSource (← readSource s file)
  let d := if expression then unread.readAs .expression else unread.read
  return {
    code := if d.isCorrect then 0 else 1
    output := print format (parseData file d) (parseLines file d) }

def idData (d : OpenDocument) (id : String) : Data :=
  let v := d.valueForId id
  .record [("id", data id), ("type_name", data (d.typeName v)),
    ("type_range", data (d.typeNameSpan? v))]

def runIds (s : FileSystem) (file : Path) (format : OutputFormat) :
    Except CommandError Outcome := do
  let d ← openFile s file
  let lines := d.ids.map fun id => id ++ ": " ++ d.typeName (d.valueForId id)
  return { output := print format (.list (d.ids.map (idData d)))
            (lines ++ [toString d.ids.length ++ " ids"]) }

def runRanges (s : FileSystem) (file : Path) (offset : Nat) (format : OutputFormat) :
    Except CommandError Outcome := do
  let d ← openFile s file
  let path := d.ranges.path offset
  let v := (d.valueAt offset).1
  let objectType := if v.isNull then none else some (d.typeName v)
  let rangeLine : Range × Nat → String := fun (r, depth) =>
    String.ofList (List.replicate (2 * depth) ' ') ++ r.kind.title ++ " [" ++
      toString r.span.start ++ ", " ++ toString r.span.stop ++ ")"
  let lines :=
    if path.isEmpty then ["No range encloses offset " ++ toString offset]
    else path.zipIdx.map rangeLine ++ (objectType.map ("Object: " ++ ·)).toList
  return { output := print format (.record [("offset", data offset), ("path", data path),
            ("object_type", data objectType)]) lines }

def runObjects (s : FileSystem) (file : Path) (format : OutputFormat) :
    Except CommandError Outcome := do
  match (← openFile s file).document.outline?, format with
  | none, _ => return { output := "No objects in " ++ file.text ++ "\n" }
  | some o, .json => return { output := (data o).pretty ++ "\n" }
  | some o, .text => return { output := o.dump }

def runPath (s : FileSystem) (file : Path) (offset : Nat) (chain : String)
    (format : OutputFormat) : Except CommandError Outcome := do
  let d := (← openFile s file).document
  match d.search (.ofDotted chain offset) with
  | (none, _) =>
    return { output := "No declaration of " ++ chain ++ " at offset " ++ toString offset ++ "\n" }
  | (some steps, declared) =>
    let span := declared.valueSpan
    let value := (sliceText? d.source span).getD ""
    let place := "[" ++ toString span.start ++ ", " ++ toString span.stop ++ ")"
    return { output := print format (.record [("nodes", data steps),
              ("declaration", data declared), ("value", data value)])
              [renderPath steps, "Value " ++ place ++ ": " ++ value] }

def indexFront (p : Project) : List String :=
  [programName ++ " indexer v" ++ programVersion,
    "Project: " ++ p.root.text ++ " (" ++ p.config.project.name ++ ")",
    "Import paths: " ++ toString p.importPaths.length]

def indexLines (p : Project) (c : IndexCounts) (watched : Bool) : List String :=
  indexFront p ++
  ["", "Indexing complete!", "Files scanned: " ++ toString c.files,
    "Documents: " ++ toString c.documents, "With errors: " ++ toString c.withErrors,
    "Rejected: " ++ toString c.rejected, "Failed: " ++ toString c.failed,
    "Libraries: " ++ toString c.libraries] ++
  if watched then [] else ["", "Run with --watch to monitor for changes."]

def runIndex (s : FileSystem) (directory : Path) (watch : Bool) (format : OutputFormat) : Outcome :=
  let p := Project.ofDirectory s directory
  let watched := watch || p.config.indexing.watch
  let (counts, p) := p.index s
  let output := print format (data counts) (indexLines p counts watched)
  if watched then
    { output := output ++ "\nMonitoring for file changes. Press Ctrl+C to stop.\n"
      watched := some p }
  else { output }

def dialectLine (d : Dialect) : String :=
  let padding := String.ofList (List.replicate (12 - d.label.length) ' ')
  "  " ++ d.label ++ padding ++ " " ++ (d.extension?.map ("." ++ ·)).getD "-"

/-- What a command does with the files as they are. -/
def run? (s : FileSystem) : Command → Except CommandError Outcome
  | .parse file dialect expression format => runParse s file dialect expression format
  | .ids file format => runIds s file format
  | .ranges file offset format => runRanges s file offset format
  | .objects file format => runObjects s file format
  | .path file offset chain format => runPath s file offset chain format
  | .index project stays format => return runIndex s project stays format
  | .watch project => return runIndex s project true .text
  | .dialects => return { output := unlines ("Supported dialects:" :: Dialect.all.map dialectLine) }

def run (s : FileSystem) (c : Command) : Outcome :=
  match c.run? s with
  | .ok outcome => outcome
  | .error e => { code := 1, report := some ("Error: " ++ e.message ++ "\n") }

/-- A short account of the commands. -/
def helpLines : List String := [
  "Usage: " ++ programName ++ " [-d] [-v] <command>",
  "",
  "Commands:",
  "  parse <file> [--dialect <name>] [--expression] [-f text|json]",
  "  ids <file> [-f text|json]",
  "  ranges <file> <offset> [-f text|json]",
  "  objects <file> [-f text|json]",
  "  path <file> <offset> <chain> [-f text|json]",
  "  index [-p <directory>] [-w] [-f text|json]",
  "  watch [-p <directory>]",
  "  dialects"]

/-- What the program does with a command line. -/
def runLine (s : FileSystem) (words : List String) : Outcome :=
  match ofCommandLine words with
  | .ok c => c.run s
  | .error .version => { output := programName ++ " " ++ programVersion ++ "\n" }
  | .error .help => { output := unlines helpLines }
  | .error (.fault fault) => { code := 2, usageFault := some fault }

end Command
end QmlCodeModel
