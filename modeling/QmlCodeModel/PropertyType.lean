/-! The types of properties by name: which hold objects, and the values that properties start with. -/
namespace QmlCodeModel

/-- The types of properties that hold no objects. -/
inductive ValueType
  | bool | double | enumeration | int | list | real | string | url | var
  deriving DecidableEq, Repr

namespace ValueType

/-- The type that a name names. Every other name is that of a type of objects. -/
def ofName? : String → Option ValueType
  | "bool" => some .bool
  | "double" => some .double
  | "enumeration" => some .enumeration
  | "int" => some .int
  | "list" => some .list
  | "real" => some .real
  | "string" => some .string
  | "url" => some .url
  | "var" => some .var
  | _ => none

/-- The first value of a property, as it would be written. -/
def initialText : ValueType → String
  | .bool => "false"
  | .double | .enumeration | .int | .real => "0"
  | .list => "[]"
  | .string | .url => "\"\""
  | .var => "undefined"

end ValueType

/-- A property of this type holds objects. -/
def holdsObjects (typeName : String) : Bool := (ValueType.ofName? typeName).isNone

/-- The first value of a property of this type, as it would be written. -/
def initialValueText (typeName : String) : String :=
  ((ValueType.ofName? typeName).map ValueType.initialText).getD "null"

end QmlCodeModel
