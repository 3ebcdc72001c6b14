import QmlCodeModel.FileSystem
import QmlCodeModel.Proofs.Path

/-! What is found by its name from a path is found in a directory, which is found by that path. -/
namespace QmlCodeModel

namespace FileTree

variable {t : FileTree} {here l : Location}

end FileTree

namespace FileSystem

variable {s : FileSystem} {p q : Path}

end FileSystem

end QmlCodeModel
