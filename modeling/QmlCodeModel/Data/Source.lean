import QmlCodeModel.Data.Basic
import QmlCodeModel.Diagnostic
import QmlCodeModel.Fingerprint.Basic
import QmlCodeModel.Import.Directive

/-! Places in a source, its messages and its imports as data. -/
namespace QmlCodeModel

instance : ToData Span where
  data s := .record [("begin", data s.start), ("end", data s.stop)]

instance : ToData Path := ⟨fun p => .text p.text⟩

instance : ToData Fingerprint := ⟨fun f => .text f.toHex⟩

instance : ToData ComponentVersion where
  data v := .record [("major", data v.major), ("minor", data v.minor)]

def ImportKind.label : ImportKind → String
  | .library => "library"
  | .file => "file"
  | .directory => "directory"

instance : ToData Import where
  data i := .record [("kind", data i.kind.label), ("name", data i.name), ("path", data i.path),
    ("version", data i.version), ("alias", data i.qualifier), ("line", data i.place.line),
    ("column", data i.place.column)]

instance : ToData Diagnostic where
  data d := .record [("severity", data d.severity.tag), ("offset", data d.offset),
    ("line", data d.place.line), ("column", data d.place.column), ("message", data d.message)]

end QmlCodeModel
