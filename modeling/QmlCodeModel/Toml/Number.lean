import QmlCodeModel.Number.Reading
import QmlCodeModel.Toml.Text
import QmlCodeModel.Toml.Value

/-! Numbers, dates and times of day. -/
namespace QmlCodeModel.Toml

/-- The greatest whole number of 64 bits. The least one is its negative less one. -/
def maxInteger : Int := 0x7fffffffffffffff

namespace Reader

/-- Digits with single underscores between them, which are left out. -/
def digitRun (test : Char → Bool) : Reader (List Char) := do
  let first ← satisfying test
  return first :: (← many (optional (char '_') *> satisfying test))

def integer (n : Int) : Reader Value := do
  require (-maxInteger - 1 ≤ n && n ≤ maxInteger)
  return .integer n

/-- A whole number in another radix, behind a zero and the letter of the radix. -/
def radixInteger (letter : Char) (radix : Nat) : Reader Value := do
  exactly ['0', letter]
  let digits ← digitRun fun c => (digitValue? c).any (· < radix)
  integer (← ofOption (digitsValue? radix digits))

/-- The characters of a sign, if there is one. -/
def sign : Reader (List Char) := do
  return (← optional (satisfying fun c => c == '+' || c == '-')).toList

/-- Digits without a leading zero, or a single zero. -/
def wholeDigits : Reader (List Char) := do
  match ← optional (char '0') with
  | some _ => return ['0']
  | none => digitRun Char.isDigit

def fraction : Reader (List Char) := do
  char '.'
  return '.' :: (← digitRun Char.isDigit)

def exponent : Reader (List Char) := do
  let letter ← satisfying fun c => c == 'e' || c == 'E'
  let sign ← sign
  return letter :: sign ++ (← digitRun Char.isDigit)

/-- The number of a text. One that is too great is refused. -/
def float (text : List Char) : Reader Value := do
  let value ← ofOption (Double.ofDecimalText? text)
  require (value != Double.infinity false)
  return .float value

def special : Reader Value := do
  let sign ← sign
  let word ← exactly "inf".toList *> pure "inf".toList <|> exactly "nan".toList *> pure "nan".toList
  return .float (← ofOption (Double.ofDecimalText? (sign ++ word)))

def decimal : Reader Value := do
  let sign ← sign
  let whole ← wholeDigits
  match ← optional fraction, ← optional exponent with
  | none, none =>
    let n ← ofOption (digitsValue? 10 whole)
    integer (if sign = ['-'] then -n else n)
  | fraction, exponent => float (sign ++ whole ++ fraction.getD [] ++ exponent.getD [])

def number : Reader Value :=
  radixInteger 'x' 16 <|> radixInteger 'o' 8 <|> radixInteger 'b' 2 <|> special <|> decimal

/-- A number of so many decimal digits within bounds. -/
def field (count least most : Nat) : Reader Nat := do
  let n ← ofOption (digitsValue? 10 (← digits Char.isDigit count))
  require (least ≤ n && n ≤ most)
  return n

def isLeapYear (year : Nat) : Bool := year % 4 == 0 && (year % 100 != 0 || year % 400 == 0)

def daysInMonth (year month : Nat) : Nat :=
  if month == 2 then (if isLeapYear year then 29 else 28)
  else if month ∈ [4, 6, 9, 11] then 30
  else 31

def date : Reader Unit := do
  let year ← field 4 0 9999
  char '-'
  let month ← field 2 1 12
  char '-'
  discard (field 2 1 (daysInMonth year month))

/-- Hours, minutes and seconds, which may have decimals. The second of a leap is allowed. -/
def timeOfDay : Reader Unit := do
  discard (field 2 0 23)
  char ':'
  discard (field 2 0 59)
  char ':'
  discard (field 2 0 60)
  discard (optional (char '.' *> satisfying Char.isDigit *> takeWhile Char.isDigit))

/-- How far a clock is ahead of or behind the common time. -/
def offset : Reader Unit :=
  discard (satisfying fun c => c == 'Z' || c == 'z') <|> do
    discard (satisfying fun c => c == '+' || c == '-')
    discard (field 2 0 23)
    char ':'
    discard (field 2 0 59)

def moment : Reader Value := do
  (do date
      discard <| optional do
        discard (satisfying (· ∈ ['T', 't', ' ']))
        timeOfDay
        discard (optional offset)) <|> timeOfDay
  return .moment

end Reader
end QmlCodeModel.Toml
