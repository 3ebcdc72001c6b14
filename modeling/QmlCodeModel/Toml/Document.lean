import QmlCodeModel.Toml.Number

/-! Whole files: lines with keys and values, under headers. -/
namespace QmlCodeModel.Toml

/-- The depth at which values in values, and parts of a key, are refused. -/
def maxDepth : Nat := 80

namespace Reader

/-- A part of a key: letters, digits, dashes and underscores, or a string on one line. -/
def keyPart : Reader String := do
  let cs ← shortString '"' <|> shortString '\'' <|> do
    let cs ← takeWhile fun c => c.isAlphanum || c == '-' || c == '_'
    require !cs.isEmpty
    return cs
  return String.ofList cs

/-- A key with dots, as the way to a table and the key in it. -/
def key : Reader (List String × String) := do
  let parts ← separated (blanks *> keyPart <* blanks) (char '.')
  require (parts.length < maxDepth)
  return (parts.dropLast, ← ofOption parts.getLast?)

def scalar : Reader Value :=
  .string <$> quotedText
  <|> exactly "true".toList *> pure (.bool true)
  <|> exactly "false".toList *> pure (.bool false)
  <|> moment
  <|> number

/-- Items between brackets, with commas between them and maybe one at the end. -/
def array (item : Reader Value) : Reader Value := do
  char '['
  let items ← separated (gap *> item <* gap) (char ',')
  if !items.isEmpty then discard (optional (char ','))
  gap
  char ']'
  return .array items

def keyValue (item : Reader Value) : Reader ((List String × String) × Value) := do
  let k ← key
  char '='
  blanks
  return (k, ← item)

/-- Keys and values between braces, on one line. -/
def inlineTable (item : Reader Value) : Reader Value := do
  char '\x7b'
  let fields ← separated (keyValue item <* blanks) (char ',')
  blanks
  char '\x7d'
  let table ← ofOption <|
    fields.foldlM (fun (t : Table) ((path, key), v) => t.define? path key v) ⟨.inline, []⟩
  return table.toValue

/-- A value in which values nest at most so deep. -/
def value : Nat → Reader Value
  | 0 => scalar
  | depth + 1 => scalar <|> array (value depth) <|> inlineTable (value depth)

end Reader

/-- What a line says. -/
inductive Line
  | blank
  | field (path : List String) (key : String) (value : Value)
  /-- The header of a table. -/
  | table (path : List String) (key : String)
  /-- The header of one more table of several. -/
  | item (path : List String) (key : String)

namespace Reader

/-- A header, between one or two brackets. -/
def header : Reader Line :=
  (do exactly ['[', '[']
      let (path, key) ← key
      exactly [']', ']']
      return .item path key)
  <|> do
    char '['
    let (path, key) ← key
    char ']'
    return .table path key

def line : Reader Line := do
  blanks
  let content ← header <|> (do
    let ((path, key), v) ← keyValue (value (maxDepth - 1))
    return .field path key v) <|> pure .blank
  lineEnd
  return content

/-- All lines, after a mark of the byte order if there is one. -/
def lines : Reader (List Line) :=
  optional (char '\ufeff') *> many line <* atEnd

end Reader

/-- The tables that some lines define, and the way to the one that the next keys belong to. -/
structure Draft where
  root : Table := ⟨.header, []⟩
  path : List String := []

/-- Adds what a line says, if it agrees with the lines before it. -/
def Draft.add? (d : Draft) : Line → Option Draft
  | .blank => some d
  | .field path key v => do
    return { d with root := ← d.root.change? .header (·.define? path key v) d.path }
  | .table path key => do return ⟨← d.root.openTable? path key, path ++ [key]⟩
  | .item path key => do return ⟨← d.root.openItem? path key, path ++ [key]⟩

/-- The table that a file defines. -/
def parse? (source : String) : Option Table := do
  let (lines, _) ← Reader.lines source.toList
  let draft ← lines.foldlM Draft.add? {}
  return draft.root

end QmlCodeModel.Toml
