import QmlCodeModel.Number.Double
import QmlCodeModel.Text.Numeral

/-! Reading a number from its decimal text. -/
namespace QmlCodeModel.Double

/-- A decimal text taken apart: `digits` is the whole number that its digits make without the point,
and the number meant is `digits * 10 ^ exponent`. -/
structure Decimal where
  digits : Nat
  /-- How many digits there are, leading zeros included. -/
  count : Nat
  exponent : Int
  deriving DecidableEq, Repr

/-- The value of digits after an optional sign; there must be a digit. -/
def readExponent? (cs : List Char) : Option Int :=
  let (negative, digits) := match cs with
    | '-' :: rest => (true, rest)
    | '+' :: rest => (false, rest)
    | _ => (false, cs)
  if digits.isEmpty || !digits.all Char.isDigit then none
  else (digitsValue? 10 digits).map fun n => if negative then -(n : Int) else n

/-- Takes apart digits with an optional point among, before or after them, and an optional exponent.
There must be a digit beside the exponent's. -/
def readDecimal? (cs : List Char) : Option Decimal := do
  let whole := cs.takeWhile Char.isDigit
  let afterWhole := cs.dropWhile Char.isDigit
  let (fraction, rest) := match afterWhole with
    | '.' :: r => (r.takeWhile Char.isDigit, r.dropWhile Char.isDigit)
    | r => ([], r)
  if whole.isEmpty && fraction.isEmpty then none
  let exponent ← match rest with
    | [] => some 0
    | c :: r => if c == 'e' || c == 'E' then readExponent? r else none
  let digits ← digitsValue? 10 (whole ++ fraction)
  return ⟨digits, whole.length + fraction.length, exponent - fraction.length⟩

/-- The magnitude nearest to a decimal. Exponents out of reach are not computed: below 10⁻³³⁰ all is
zero and above 10³¹⁰ all is infinite. -/
def magnitudeOfDecimal (d : Decimal) : Nat :=
  if d.digits = 0 || d.count + d.exponent < -330 then 0
  else if 310 < d.exponent then infinityBits
  else
    let (num, den) := scale 10 d.exponent d.digits 1
    magnitudeOfFraction num den

def equalsIgnoringCase (cs : List Char) (word : String) : Bool :=
  cs.map Char.toLower == word.toList

/-- Reads an optional sign and a decimal, or in any case `inf`, `infinity` or `nan`. -/
def ofDecimalText? (cs : List Char) : Option Double :=
  let (negative, body) := match cs with
    | '-' :: rest => (true, rest)
    | '+' :: rest => (false, rest)
    | _ => (false, cs)
  if equalsIgnoringCase body "inf" || equalsIgnoringCase body "infinity" then
    some (infinity negative)
  else if equalsIgnoringCase body "nan" then
    some (if negative then notANumber.neg else notANumber)
  else (readDecimal? body).map fun d => ofMagnitude negative (magnitudeOfDecimal d)

end QmlCodeModel.Double
