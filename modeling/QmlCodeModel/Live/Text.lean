import QmlCodeModel.Live.Path
import QmlCodeModel.Number.Shortest
import QmlCodeModel.Text.CharClass.Unprintable

/-! How running objects, their values and connections are shown to a reader. -/
namespace QmlCodeModel

/-! Texts in double quotes, as they are shown to a reader. -/

/-- How a character is written between double quotes. -/
def quotedChar (c : Char) : List Char :=
  if c == '"' then ['\\', '"']
  else if c == '\\' then ['\\', '\\']
  else if c == '\n' then ['\\', 'n']
  else if c == '\t' then ['\\', 't']
  else if c == '\r' then ['\\', 'r']
  else if c == '\x00' then ['\\', '0']
  else if CharClass.unprintable.contains c then
    "\\u\x7b".toList ++ Nat.toDigits 16 c.toNat ++ ['}']
  else [c]

def quoted (text : String) : String :=
  String.ofList ('"' :: text.toList.flatMap quotedChar ++ ['"'])

def LiveValue.render (g : LiveGraph) : LiveValue → String
  | .undefined => "undefined"
  | .bool value => if value then "true" else "false"
  | .number value => value.toText
  | .string value => quoted value
  | .object none => "null"
  | .object (some target) => g.typeName target ++ " \x7b\x7d"
  | .list items => "[" ++ ", ".intercalate (items.map g.typeName) ++ "]"

/-- An object with its properties, sorted by name. -/
def LiveObject.render (g : LiveGraph) (o : LiveObject) : String :=
  let sorted := o.values.entries.mergeSort fun a b => a.1 ≤ b.1
  let values := sorted.map fun (name, value) => quoted name ++ ": " ++ value.render g
  "LiveNode \x7b type_name: " ++ quoted o.typeName ++ ", values: \x7b" ++
    ", ".intercalate values ++ "\x7d \x7d"

def Connection.render (g : LiveGraph) (c : Connection) : String :=
  let index := match c.target.index with
    | some index => "Some(" ++ toString index ++ ")"
    | none => "None"
  "Connection \x7b object: " ++ quoted (g.typeName c.target.object) ++ ", property: " ++
    quoted c.target.property ++ ", index: " ++ index ++ " \x7d"

end QmlCodeModel
