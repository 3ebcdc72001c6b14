import QmlCodeModel.Data.Source
import QmlCodeModel.Symbols.Object
import QmlCodeModel.Symbols.Scope

/-! Objects, their members, and the scopes of scripts as data. -/
namespace QmlCodeModel

instance : ToData ObjectMemberKind where
  data
    | .property typeName isList isDefault isReadonly isRequired => .record [
      ("kind", data "property"), ("type_name", data typeName), ("is_list", data isList),
      ("is_default", data isDefault), ("is_readonly", data isReadonly),
      ("is_required", data isRequired)]
    | .signal parameters => .record [("kind", data "signal"), ("parameters", data parameters)]
    | .function => .record [("kind", data "function")]
    | .variable => .record [("kind", data "variable")]
    | .enumeration => .record [("kind", data "enum")]
    | .scriptBinding => .record [("kind", data "script_binding")]
    | .objectBinding => .record [("kind", data "object_binding")]
    | .arrayBinding => .record [("kind", data "array_binding")]

instance : ToData ObjectMember where
  data m := .record [("name", data m.name), ("kind", data m.kind), ("node", data m.node),
    ("span", data m.span)]

instance : ToData ObjectValue where
  data o := .record [("node", data o.node), ("type_name", data o.typeName),
    ("parent", data o.parent), ("id", data o.id), ("members", data o.members),
    ("children", data o.children), ("grouped", data o.grouped)]

def DeclarationKind.label : DeclarationKind → String
  | .var => "var"
  | .let => "let"
  | .const => "const"
  | .function => "function"
  | .className => "class"
  | .parameter => "parameter"
  | .catchParameter => "catch_parameter"
  | .import => "import"

instance : ToData Declaration where
  data d := .record [("name", data d.name), ("kind", data d.kind.label), ("span", data d.span),
    ("node", data d.node)]

def ScopeKind.label : ScopeKind → String
  | .global => "global"
  | .function => "function"
  | .block => "block"

instance : ToData Scope where
  data s := .record [("kind", data s.kind.label), ("span", data s.span), ("parent", data s.parent),
    ("declarations", data s.declarations)]

end QmlCodeModel
