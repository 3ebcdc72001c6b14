import QmlCodeModel.Data.Source
import QmlCodeModel.Import.Graph
import QmlCodeModel.Library.Basic

/-! Libraries, and what documents offer to others, as data. -/
namespace QmlCodeModel

instance : ToData Component where
  data c := .record [("type_name", data c.typeName), ("file_name", data c.fileName),
    ("version", data c.version), ("singleton", data c.singleton), ("internal", data c.internal)]

instance : ToData Plugin where
  data p := .record [("name", data p.name), ("path", data p.path)]

instance : ToData Qmldir where
  data q := .record [("module", data q.module?), ("components", data q.components),
    ("plugins", data q.plugins), ("type_infos", data q.typeInfos), ("depends", data q.depends),
    ("class_name", data q.className?), ("designer_supported", data q.designerSupported),
    ("errors", .list (q.faults.map fun (line, fault) =>
      .record [("line", data line), ("message", data fault.message)]))]

instance : ToData Library where
  data l := .record [("status", data l.status.label), ("module", data l.module?),
    ("components", data l.components), ("plugins", data l.plugins),
    ("type_infos", data l.typeInfos), ("type_fingerprints", data l.typeFingerprints),
    ("dump_status", data l.dumpStatus.label), ("dump_error", data l.dumpError),
    ("fingerprint", data l.fingerprint)]

instance : ToData Export where
  data e := .record [("path", data e.path), ("type_name", data e.typeName)]

instance : ToData CoreImport where
  data c := .record [("import_id", data c.importId), ("dialect", data c.dialect.tag),
    ("exports", data c.exports), ("fingerprint", data c.fingerprint)]

end QmlCodeModel
