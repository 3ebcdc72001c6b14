/-! Reading the digits of unsigned whole numbers. -/
namespace QmlCodeModel

/-- The value of a digit of any radix up to sixteen, in either case. -/
def digitValue? (c : Char) : Option Nat :=
  if c.isDigit then some (c.toNat - '0'.toNat)
  else if 'a' ≤ c && c ≤ 'f' then some (c.toNat - 'a'.toNat + 10)
  else if 'A' ≤ c && c ≤ 'F' then some (c.toNat - 'A'.toNat + 10)
  else none

/-- The value of a run of digits, which may be empty. -/
def digitsValue? (radix : Nat) (cs : List Char) : Option Nat :=
  cs.foldlM (fun value c => do
    let digit ← digitValue? c
    if digit < radix then some (value * radix + digit) else none) 0

/-- A whole number of so many bits in the given radix: at least one digit, after an optional plus
sign. -/
def word? (bits radix : Nat) (cs : List Char) : Option Nat :=
  let digits := match cs with
    | '+' :: rest => rest
    | _ => cs
  if digits.isEmpty then none
  else (digitsValue? radix digits).filter (· < 1 <<< bits)

/-- A whole number below 2³². -/
def word32? (radix : Nat) (cs : List Char) : Option Nat := word? 32 radix cs

end QmlCodeModel
