import Mathlib.Data.List.Induction
import QmlCodeModel.Proofs.Files.Inside
import QmlCodeModel.Proofs.Files.Tree

/-! Paths with detours. Where all steps of a path can be taken, its clean form leads to the same place, and what is
seen from the path is what is seen from its clean form. -/
namespace QmlCodeModel

open QmlCodeModel.Path

/-! Characters of a clean path. -/

namespace Path

end Path

/-! Following the steps that are left of a path. -/

namespace FileTree

variable {t : FileTree} {here l m : Location} {parts : List (List Char)}

end FileTree

namespace FileSystem

variable {s : FileSystem} {p p' q : Path} {l : Location}

end FileSystem

end QmlCodeModel
