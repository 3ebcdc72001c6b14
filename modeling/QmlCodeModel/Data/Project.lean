import QmlCodeModel.Data.Source
import QmlCodeModel.Project.Basic

/-! Settings of projects, and counts of their files, as data. -/
namespace QmlCodeModel

instance : ToData Config where
  data c := .record [
    ("project", .record [("name", data c.project.name), ("root", data c.project.root)]),
    ("indexing", .record [("exclude", data c.indexing.excluded),
      ("include", data c.indexing.included), ("watch", data c.indexing.watch),
      ("max_file_size", data c.indexing.maxFileSize),
      ("allow_invalid", data c.indexing.allowInvalid)]),
    ("libraries", .record [("import_paths", data c.libraries.importPaths)]),
    ("logging", .record [("level", data c.logging.level), ("format", data c.logging.format)])]

instance : ToData IndexCounts where
  data c := .record [("files", data c.files), ("documents", data c.documents),
    ("rejected", data c.rejected), ("failed", data c.failed), ("with_errors", data c.withErrors),
    ("libraries", data c.libraries)]

end QmlCodeModel
