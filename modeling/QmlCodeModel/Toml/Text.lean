import QmlCodeModel.Text.Numeral

/-! Readers that take something from the front of a text, or fail: those of blanks, comments and the four kinds of
strings. -/
namespace QmlCodeModel.Toml

abbrev Reader (α : Type) := StateT (List Char) Option α

namespace Reader

variable {α β : Type}

/-- Takes a character that passes the test. -/
def satisfying (test : Char → Bool) : Reader Char
  | c :: rest => if test c then some (c, rest) else none
  | [] => none

def char (c : Char) : Reader Unit := discard (satisfying (· == c))

/-- Takes these characters. -/
def exactly (cs : List Char) : Reader Unit := cs.forM char

def takeWhile (test : Char → Bool) : Reader (List Char) :=
  fun s => some (s.takeWhile test, s.dropWhile test)

/-- Stands at the end of the text. -/
def atEnd : Reader Unit
  | [] => some ((), [])
  | _ => none

/-- Reads on as long as the reader takes something. -/
def manyFrom (p : Reader α) (s : List Char) : List α × List Char :=
  match p s with
  | some (x, rest) =>
    if rest.length < s.length then
      let (xs, rest) := manyFrom p rest
      (x :: xs, rest)
    else ([], s)
  | none => ([], s)
termination_by s.length

def many (p : Reader α) : Reader (List α) := fun s => some (manyFrom p s)

/-- Reads any number of things with separators between them. -/
def separated (p : Reader α) (separator : Reader Unit) : Reader (List α) := do
  match ← optional p with
  | some x => return x :: (← many (separator *> p))
  | none => return []

/-- Takes so many digits that pass the test. -/
def digits (test : Char → Bool) : Nat → Reader (List Char)
  | 0 => pure []
  | count + 1 => do return (← satisfying test) :: (← digits test count)

/-- Gives what is there, and fails if there is nothing. -/
def ofOption (x : Option α) : Reader α := fun s => x.map (·, s)

/-- Fails unless this holds. -/
def require (p : Bool) : Reader Unit := if p then pure () else failure

end Reader

def isBlank (c : Char) : Bool := c == ' ' || c == '\t'

/-- A character that a line can hold: a tab, or no control. -/
def isVisible (c : Char) : Bool := c == '\t' || ('\x20' ≤ c && c != '\x7f')

def isHexDigit (c : Char) : Bool := (digitValue? c).isSome

namespace Reader

def blanks : Reader Unit := discard (takeWhile isBlank)

def newline : Reader Unit := exactly ['\n'] <|> exactly ['\r', '\n']

def comment : Reader Unit := char '#' *> discard (takeWhile isVisible)

/-- What may follow on a line: blanks and a comment. -/
def lineEnd : Reader Unit := blanks *> discard (optional comment) *> (newline <|> atEnd)

/-- What may stand between the items of an array: blanks, newlines and comments. -/
def gap : Reader Unit := discard (many (discard (satisfying isBlank) <|> newline <|> comment))

/-- The character of a number in hexadecimal digits. -/
def codePoint (count : Nat) : Reader Char := do
  let n ← ofOption (digitsValue? 16 (← digits isHexDigit count))
  require (n.isValidChar)
  return Char.ofNat n

/-- A character that stands behind a backslash. -/
def escape : Reader Char := do
  char '\\'
  match ← satisfying fun _ => true with
  | 'b' => return '\x08'
  | 't' => return '\t'
  | 'n' => return '\n'
  | 'f' => return '\x0c'
  | 'r' => return '\r'
  | '"' => return '"'
  | '\\' => return '\\'
  | 'u' => codePoint 4
  | 'U' => codePoint 8
  | _ => failure

/-- A character that stands for itself between quotes of this kind. -/
def plain (quote : Char) : Reader Char :=
  satisfying fun c => isVisible c && c != quote && (c != '\\' || quote == '\'')

/-- A string on one line. Only double quotes have escapes. -/
def shortString (quote : Char) : Reader (List Char) :=
  char quote *> many (if quote == '"' then plain quote <|> escape else plain quote) <* char quote

/-- A backslash at the end of a line, and the blanks and newlines after it. They stand for nothing. -/
def continuation : Reader Unit := do
  char '\\'
  blanks
  newline
  discard (many (discard (satisfying isBlank) <|> newline))

/-- A run of so many quotes. -/
def quotes (quote : Char) (least most : Nat) : Reader Nat := do
  let count := (← takeWhile (· == quote)).length
  require (least ≤ count && count ≤ most)
  return count

/-- One or two quotes stand for themselves, and a newline stands for a line feed. -/
def longPart (quote : Char) : Reader (List Char) :=
  List.singleton <$> plain quote
  <|> newline *> pure ['\n']
  <|> (List.replicate · quote) <$> quotes quote 1 2

/-- A string over several lines, between runs of three quotes. A newline at the start is left out.
Up to two quotes may stand in front of the last three. -/
def longString (quote : Char) : Reader (List Char) := do
  exactly [quote, quote, quote]
  discard (optional newline)
  let parts ← many <|
    if quote == '"' then
      longPart quote <|> continuation *> pure [] <|> (List.singleton <$> escape)
    else longPart quote
  let count ← quotes quote 3 5
  return parts.flatten ++ List.replicate (count - 3) quote

/-- A string in double or single quotes. -/
def quotedText : Reader String :=
  String.ofList <$>
    (longString '"' <|> longString '\'' <|> shortString '"' <|> shortString '\'')

end Reader
end QmlCodeModel.Toml
