import QmlCodeModel.Text.Numeral

/-! The value of a quoted string: the quotes are dropped and the escapes decoded. -/
namespace QmlCodeModel

/-- The character with a code point written in hexadecimal, if there is one. -/
def charOfHex (digits : List Char) : List Char :=
  match word32? 16 digits with
  | some n => if n.isValidChar then [Char.ofNat n] else []
  | none => []

/-- What an escape stands for, given the text after its backslash, and the text after the escape.
A code point that is no character stands for nothing, and so does an escaped line end. -/
def readEscape : List Char → List Char × List Char
  | [] => ([], [])
  | 'n' :: rest => (['\n'], rest)
  | 't' :: rest => (['\t'], rest)
  | 'r' :: rest => (['\r'], rest)
  | 'b' :: rest => (['\x08'], rest)
  | 'f' :: rest => (['\x0c'], rest)
  | 'v' :: rest => (['\x0b'], rest)
  | '0' :: rest => (['\x00'], rest)
  | 'x' :: rest => (charOfHex (rest.take 2), rest.drop 2)
  | 'u' :: '\x7b' :: rest =>
    (charOfHex (rest.takeWhile (· != '\x7d')), (rest.dropWhile (· != '\x7d')).drop 1)
  | 'u' :: rest => (charOfHex (rest.take 4), rest.drop 4)
  | '\r' :: '\n' :: rest => ([], rest)
  | c :: rest =>
    (if c == '\r' || c == '\n' || c == '\u2028' || c == '\u2029' then [] else [c], rest)

theorem length_readEscape_le (text : List Char) : (readEscape text).2.length ≤ text.length := by
  fun_cases readEscape text <;> simp
  case case10 rest =>
    have := (List.dropWhile_suffix (l := rest) (· != '\x7d')).length_le
    omega
  all_goals omega

/-- Decodes the escapes of a text without quotes. -/
def unescape : List Char → List Char
  | [] => []
  | c :: rest =>
    if c == '\\' then (readEscape rest).1 ++ unescape (readEscape rest).2
    else c :: unescape rest
termination_by text => text.length
decreasing_by
  · have := length_readEscape_le rest
    simp only [List.length_cons]
    omega
  · simp

/-- The inside of a quoted text. The closing quote may be missing, and so may both. -/
def dropQuotes : List Char → List Char
  | [] => []
  | quote :: body =>
    if quote == '"' || quote == '\'' then
      if body.getLast? == some quote then body.dropLast else body
    else quote :: body

/-- The value of the text of a string token. -/
def stringValue (raw : List Char) : List Char := unescape (dropQuotes raw)

end QmlCodeModel
