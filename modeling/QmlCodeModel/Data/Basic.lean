/-! Data for other programs: lists and records of texts, whole numbers and truth values. They are written in the
notation of JSON, on one line or indented. -/
namespace QmlCodeModel

inductive Data
  | null
  | bool (value : Bool)
  | number (value : Int)
  | text (value : String)
  | list (items : List Data)
  /-- Names with their values, in the order in which they are written. -/
  | record (fields : List (String × Data))
  deriving Repr, Inhabited

/-- What has a form as data. -/
class ToData (α : Type) where
  data : α → Data

export ToData (data)

instance : ToData Data := ⟨id⟩
instance : ToData Bool := ⟨.bool⟩
instance : ToData Nat := ⟨fun n => .number n⟩
instance : ToData UInt32 := ⟨fun n => .number n.toNat⟩
instance : ToData Int := ⟨.number⟩
instance : ToData String := ⟨.text⟩

section
variable {α β : Type} [ToData α] [ToData β]

instance : ToData (Option α) := ⟨fun x => (x.map data).getD .null⟩
instance : ToData (List α) := ⟨fun xs => .list (xs.map data)⟩
instance : ToData (α × β) := ⟨fun (x, y) => .list [data x, data y]⟩

end

namespace Data

/-! The notation of JSON. -/

/-- How a character is written in a text. Only quotes, backslashes and controls are changed. -/
def jsonChar (c : Char) : List Char :=
  if c == '"' then ['\\', '"']
  else if c == '\\' then ['\\', '\\']
  else if c == '\n' then ['\\', 'n']
  else if c == '\r' then ['\\', 'r']
  else if c == '\t' then ['\\', 't']
  else if c == '\x08' then ['\\', 'b']
  else if c == '\x0c' then ['\\', 'f']
  else if c.toNat < 0x20 then
    "\\u00".toList ++ [Nat.digitChar (c.toNat / 16), Nat.digitChar (c.toNat % 16)]
  else [c]

def jsonText (text : String) : String :=
  "\"" ++ String.ofList (text.toList.flatMap jsonChar) ++ "\""

mutual

/-- The data on one line, without blanks. -/
def compact : Data → String
  | .null => "null"
  | .bool value => if value then "true" else "false"
  | .number value => toString value
  | .text value => jsonText value
  | .list items => "[" ++ ",".intercalate (compactItems items) ++ "]"
  | .record fields => "\x7b" ++ ",".intercalate (compactFields fields) ++ "\x7d"

def compactItems : List Data → List String
  | [] => []
  | item :: rest => item.compact :: compactItems rest

def compactFields : List (String × Data) → List String
  | [] => []
  | (name, value) :: rest => (jsonText name ++ ":" ++ value.compact) :: compactFields rest

end

def indent (depth : Nat) : String := String.ofList (List.replicate (2 * depth) ' ')

/-- Parts on lines of their own between brackets. Without parts there is one line. -/
def block (depth : Nat) (opening closing : String) (parts : List String) : String :=
  if parts.isEmpty then opening ++ closing
  else
    opening ++ "\n" ++ ",\n".intercalate (parts.map (indent (depth + 1) ++ ·)) ++ "\n" ++
      indent depth ++ closing

mutual

/-- The data over several lines, from a depth on. -/
def prettyAt (depth : Nat) : Data → String
  | .null => "null"
  | .bool value => if value then "true" else "false"
  | .number value => toString value
  | .text value => jsonText value
  | .list items => block depth "[" "]" (prettyItems (depth + 1) items)
  | .record fields => block depth "\x7b" "\x7d" (prettyFields (depth + 1) fields)

def prettyItems (depth : Nat) : List Data → List String
  | [] => []
  | item :: rest => item.prettyAt depth :: prettyItems depth rest

def prettyFields (depth : Nat) : List (String × Data) → List String
  | [] => []
  | (name, value) :: rest =>
    (jsonText name ++ ": " ++ value.prettyAt depth) :: prettyFields depth rest

end

/-- The data over several lines, each level indented by two blanks. -/
def pretty (d : Data) : String := d.prettyAt 0

end Data
end QmlCodeModel
