import QmlCodeModel.Data.Source
import QmlCodeModel.Outline.Path
import QmlCodeModel.Ranges.Basic

/-! Ranges, outlines and paths as data. -/
namespace QmlCodeModel

def RangeKind.label : RangeKind → String
  | .object => "object"
  | .objectBinding => "object_binding"
  | .groupedBinding => "grouped_binding"
  | .arrayBinding => "array_binding"
  | .scriptBlock => "script_block"
  | .function => "function"

instance : ToData Range where
  data r := .record [("begin", data r.span.start), ("end", data r.span.stop),
    ("node", data r.node), ("kind", data r.kind.label)]

/-- A property of an outline, with its object as given. -/
def OutlineProperty.toData {α : Type} (p : OutlineProperty α) (child : Data) : Data :=
  .record [("name", data p.name), ("object_type", data p.ownerType),
    ("type_name", data p.declaredType), ("begin", data p.start), ("value_begin", data p.valueStart),
    ("end", data p.stop), ("child", child)]

def Outline.toData (o : Outline) : Data :=
  let properties := o.properties.attach.map fun ⟨p, _⟩ =>
    p.toData <| match _hc : p.child with
      | some c => c.toData
      | none => .null
  let children := o.children.attach.map fun ⟨c, _⟩ => c.toData
  .record [("node", data o.node), ("type_name", data o.typeName), ("begin", data o.span.start),
    ("end", data o.span.stop), ("properties", .list properties), ("children", .list children)]
termination_by sizeOf o
decreasing_by
  · exact sizeOf_lt_of_mem_properties ‹_› ‹_›
  · exact sizeOf_lt_of_mem_children ‹_›

instance : ToData Outline := ⟨Outline.toData⟩

instance : ToData PathStep where
  data
    | .property name ownerType => .record [("node", data "property"), ("name", data name),
      ("object_type", data ownerType)]
    | .index index => .record [("node", data "index"), ("index", data index)]

instance : ToData DeclaredProperty where
  data d := .record [("position", data d.position), ("identifier_chain", data d.chain),
    ("identifier_length", data d.nameSize), ("type_name", data d.typeName),
    ("parent_type", data d.parentType), ("value_offset", data d.valueOffset),
    ("value_length", data d.valueSize)]

end QmlCodeModel
