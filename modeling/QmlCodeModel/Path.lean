import QmlCodeModel.Text.Split

/-! Names of files and directories, as texts with slashes. -/
namespace QmlCodeModel

structure Path where
  text : String
  deriving DecidableEq, Repr, Inhabited, Hashable

namespace Path

/-- A step of a path. -/
inductive Component
  | root
  /-- A single dot, which is kept only in front of a relative path. -/
  | current
  /-- Two dots. -/
  | parent
  | name (text : String)
  deriving DecidableEq, Repr

def isAbsolute (p : Path) : Bool := p.text.toList.head? == some '/'

def isEmpty (p : Path) : Bool := p.text.isEmpty

/-- The steps that parts between slashes name: empty parts and single dots name none. -/
def Component.ofParts (parts : List (List Char)) : List Component :=
  parts.filterMap fun part =>
    if part == [] || part == ['.'] then none
    else if part == ['.', '.'] then some .parent
    else some (.name (String.ofList part))

def components (p : Path) : List Component :=
  let parts := splitOnChar '/' p.text.toList
  if p.isAbsolute then .root :: Component.ofParts parts
  else if parts.head? == some ['.'] then .current :: Component.ofParts parts
  else Component.ofParts parts

namespace Component

/-- What orders steps of different kinds. -/
def rank : Component → Nat
  | .root => 0
  | .current => 1
  | .parent => 2
  | .name _ => 3

def compare : Component → Component → Ordering
  | .name text, .name other => Ord.compare text other
  | step, other => Ord.compare step.rank other.rank

end Component

/-- Compares the steps from the first on. -/
def le (p q : Path) : Bool := (List.compareLex Component.compare p.components q.components).isLE

/-- The path leads through the directory `directory`, or is that directory. -/
def isWithin (p directory : Path) : Bool := directory.components.isPrefixOf p.components

/-- Drops so many steps from parts between slashes. -/
def dropSteps : Nat → List (List Char) → List (List Char)
  | _ + 1, [] => []
  | count + 1, part :: rest =>
    if part = [] || part = ['.'] then dropSteps (count + 1) rest else dropSteps count rest
  | 0, parts => parts

/-- The part of the path below a directory that it leads through. Single dots and repeated slashes
stay as they are, but not at the ends. -/
def relativeTo? (p directory : Path) : Option Path :=
  if p.isWithin directory then
    let count := (Component.ofParts (splitOnChar '/' directory.text.toList)).length
    let parts := dropSteps count (splitOnChar '/' p.text.toList)
    let nothing (part : List Char) : Bool := part = [] || part = ['.']
    let trimmed := ((parts.dropWhile nothing).reverse.dropWhile nothing).reverse
    some ⟨"/".intercalate (trimmed.map String.ofList)⟩
  else none

/-- The path `q` seen from the directory `p`. An absolute path stays what it is. -/
def join (p q : Path) : Path :=
  if q.isAbsolute then q
  else if p.isEmpty || p.text.toList.getLast? == some '/' then ⟨p.text ++ q.text⟩
  else ⟨p.text ++ "/" ++ q.text⟩

/-- The last step, if it is a name. -/
def fileName? (p : Path) : Option String :=
  match p.components.getLast? with
  | some (.name text) => some text
  | _ => none

/-- The text after the last dot of a name, unless that dot starts the name. -/
def extensionOfName (name : String) : Option String :=
  let reversed := name.toList.reverse
  let extension := reversed.takeWhile (· != '.')
  match reversed.dropWhile (· != '.') with
  | _ :: _ :: _ => some (String.ofList extension.reverse)
  | _ => none

def extension? (p : Path) : Option String := p.fileName?.bind extensionOfName

/-- A path without detours: first steps up, which only a relative path can have, then names. -/
structure Direct where
  absolute : Bool := false
  ups : Nat := 0
  /-- The names, the last one first. -/
  reversed : List String := []
  deriving DecidableEq, Repr

/-- Takes one more step. A step up leaves the last name, and the root cannot be left. -/
def Direct.step (d : Direct) : Component → Direct
  | .root => { absolute := true }
  | .current => d
  | .parent =>
    match d.reversed with
    | _ :: rest => { d with reversed := rest }
    | [] => if d.absolute then d else { d with ups := d.ups + 1 }
  | .name text => { d with reversed := text :: d.reversed }

def Direct.steps (d : Direct) : List String := List.replicate d.ups ".." ++ d.reversed.reverse

def Direct.toPath (d : Direct) : Path :=
  ⟨(if d.absolute then "/" else "") ++ "/".intercalate d.steps⟩

def direct (p : Path) : Direct := p.components.foldl Direct.step {}

/-- The path without single dots, and without steps up where the step before can be left out. -/
def clean (p : Path) : Path := p.direct.toPath

/-- The clean path seen from a working directory. A path that is empty once clean stays empty. -/
def absolute (p workingDirectory : Path) : Path :=
  let p := p.clean
  if p.isAbsolute || p.isEmpty then p else (workingDirectory.join p).clean

/-- The path without its last step, if there is one to leave. -/
def parent? (p : Path) : Option Path :=
  match p.components.getLast? with
  | none | some .root => none
  | some _ =>
    let before := p.components.dropLast
    let text : Component → String
      | .root => ""
      | .current => "."
      | .parent => ".."
      | .name text => text
    match before with
    | [.root] => some ⟨"/"⟩
    | _ => some ⟨"/".intercalate (before.map text)⟩

end Path
end QmlCodeModel
