import QmlCodeModel.Command.Run
import QmlCodeModel.Project.Change

/-! The program. It copies the files that a command is about into a tree of files, and prints what
the command makes of them. -/
namespace QmlCodeModel

/-- Copies a file without its bytes, or else the last directory on the way that there is. -/
partial def copyWay (s : FileSystem) (p : Path) : IO FileSystem := do
  let place := (← IO.currentDir) / p.text
  try
    match (← place.metadata).type with
    | .dir => return s.makeDirectory p
    | _ => return s.write p .empty 0
  catch _ =>
    match p.parent? with
    | some q => if q.isEmpty then return s else copyWay s q
    | none => return s

/-- Copies a file, or a directory with all that is in it but links. -/
partial def copyPath (s : FileSystem) (p : Path) : IO FileSystem := do
  let place := (← IO.currentDir) / p.text
  try
    let info ← place.metadata
    match info.type with
    | .file => return s.write p (← IO.FS.readBinFile place) info.modified.sec
    | .dir =>
      (← place.readDir).foldlM (fun s entry => do
        match (← entry.path.symlinkMetadata).type with
        | .symlink => return s
        | _ => copyPath s (p.join ⟨entry.fileName⟩)) (s.makeDirectory p)
    | _ => return s
  catch _ => copyWay s p

/-- The files that a command is about. -/
def filesFor (c : Command) : IO FileSystem := do
  let here : Path := ⟨(← IO.currentDir).toString⟩
  let s := { FileSystem.makeDirectory {} here with workingDirectory := here }
  match c with
  | .parse file .. | .ids file .. | .ranges file .. | .objects file .. | .path file .. =>
    copyPath s file
  | .index directory .. | .watch directory =>
    let s ← copyPath s directory
    let s ← (Project.ofDirectory s directory).importPaths.foldlM copyPath s
    ((Project.ofDirectory s directory).typeInfoFiles s).foldlM copyPath s
  | .dialects => return s

/-- Looks once a second for what has changed. -/
partial def keepWatching (c : Command) (s : FileSystem) (p : Project) : IO Unit := do
  IO.sleep 1000
  let now ← filesFor c
  keepWatching c now (p.noticeChanges s now)

end QmlCodeModel

open QmlCodeModel in
def main (words : List String) : IO UInt32 := do
  let command := (Command.ofCommandLine words).toOption
  let s ← (command.mapM filesFor : IO (Option FileSystem))
  let outcome := Command.runLine (s.getD {}) words
  IO.print outcome.output
  (← IO.getStdout).flush
  if let some report := outcome.report then IO.eprint report
  if let some fault := outcome.usageFault then
    IO.eprintln ("error: " ++ fault.message)
    IO.eprint (unlines Command.helpLines)
  if let (some c, some s, some p) := (command, s, outcome.watched) then keepWatching c s p
  return UInt32.ofNat outcome.code
