import QmlCodeModel.Project.Basic

/-! What a project makes of messages that files have changed. -/
namespace QmlCodeModel

/-- What a message did to the documents and libraries of a project. -/
inductive Change
  | updated | removed | library | ignored
  deriving DecidableEq, Repr

def Change.label : Change → String
  | .updated => "updated"
  | .removed => "removed"
  | .library => "library"
  | .ignored => "ignored"

/-- What has been done to files. -/
inductive FileAction
  | create | modify | remove
  /-- Something that leaves files as they are. -/
  | other
  deriving DecidableEq, Repr

namespace Project

/-- Takes notice of a change at a path. Whether something is there now decides what has happened. -/
def noticePath (p : Project) (s : FileSystem) (path : Path) : Change × Project :=
  match (path.fileName?.filter (· = Qmldir.fileName)).bind fun _ => path.parent? with
  | some directory => (.library, p.refreshLibrary s directory)
  | none =>
    if !p.admits path then
      if s.contains path then (.ignored, p)
      else
        let (count, p) := p.removeDirectory path
        (if 0 < count then .removed else .ignored, p)
    else if !s.isFile path then (.removed, p.removeFile path)
    else
      match p.updateFile s path with
      | .ok (taken, p) => (if taken then .updated else .removed, p)
      | .error _ => (.ignored, p)

/-- Takes notice of a message about some paths, one after the other. -/
def notice (p : Project) (s : FileSystem) (action : FileAction) (paths : List Path) :
    List Change × Project :=
  if action = .other then ([], p)
  else
    paths.foldl (fun (changes, p) path =>
      let (change, p) := p.noticePath s path
      (changes ++ [change], p)) ([], p)

/-- Takes notice of all that is not the same in two trees of files. -/
def noticeChanges (p : Project) (before after : FileSystem) : Project :=
  let paths := (before.tree.changes after.tree).map FileSystem.pathOf
  (p.notice after .modify paths).2

end Project
end QmlCodeModel
