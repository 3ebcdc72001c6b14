/-! Numbers in the binary format of 64 bits, and the one nearest to a fraction. -/
namespace QmlCodeModel

/-- A number in the binary format of 64 bits, given by its bits: the sign, eleven bits of exponent
and 52 bits of fraction. -/
structure Double where
  bits : UInt64
  deriving DecidableEq, Repr, Inhabited

namespace Double

/-- The bits of positive infinity. The bits of greater values with the same sign are no numbers. -/
def infinityBits : Nat := 0x7ff0000000000000

def signBit : Nat := 0x8000000000000000

def ofMagnitude (negative : Bool) (magnitude : Nat) : Double :=
  ⟨UInt64.ofNat (if negative then signBit + magnitude else magnitude)⟩

def infinity (negative : Bool) : Double := ofMagnitude negative infinityBits

def notANumber : Double := ofMagnitude false 0x7ff8000000000000

/-- The bits without the sign. -/
def magnitude (x : Double) : Nat := x.bits.toNat % signBit

def isNegative (x : Double) : Bool := signBit ≤ x.bits.toNat

def isNaN (x : Double) : Bool := infinityBits < x.magnitude

def isInfinite (x : Double) : Bool := x.magnitude == infinityBits

def isZero (x : Double) : Bool := x.magnitude == 0

/-- The same number with the other sign. -/
def neg (x : Double) : Double := ofMagnitude (!x.isNegative) x.magnitude

/-- Equality of the numbers meant: both zeros are equal, and what is no number equals nothing. -/
def equals (x y : Double) : Bool :=
  !x.isNaN && !y.isNaN && (x.bits == y.bits || (x.isZero && y.isZero))

/-- A finite number is `significand * 2 ^ exponent`, up to its sign. -/
structure Parts where
  significand : Nat
  exponent : Int
  deriving DecidableEq, Repr

/-- How many fractions there are for each exponent. -/
def fractions : Nat := 0x10000000000000

def parts (x : Double) : Parts :=
  let exponent : Nat := x.magnitude / fractions
  let fraction := x.magnitude % fractions
  if exponent = 0 then ⟨fraction, -1074⟩ else ⟨fractions + fraction, (exponent : Int) - 1075⟩

/-- The quotient rounded to the nearest whole number, a half to the even one. -/
def roundDiv (num den : Nat) : Nat :=
  let quotient := num / den
  let twice := 2 * (num % den)
  if twice > den || (twice == den && quotient % 2 == 1) then quotient + 1 else quotient

/-- Multiplies the first of two factors, or the second by the inverse, by a power of a base. -/
def scale (base : Nat) (exponent : Int) (num den : Nat) : Nat × Nat :=
  if 0 ≤ exponent then (num * base.pow exponent.toNat, den)
  else (num, den * base.pow (-exponent).toNat)

/-- The exponent of the greatest power of two that is not above a positive fraction. -/
def floorLog2 (num den : Nat) : Int :=
  let estimate := (num.log2 : Int) - den.log2
  let (low, high) := scale 2 estimate den num
  if low ≤ high then estimate else estimate - 1

/-- The magnitude nearest to a fraction, a half going to the even one. Fractions beyond the greatest
finite number become infinite. -/
def magnitudeOfFraction (num den : Nat) : Nat :=
  if num = 0 then 0
  else
    let exponent := max (floorLog2 num den - 52) (-1074)
    let (num, den) := scale 2 (-exponent) num den
    min infinityBits ((exponent + 1074).toNat * fractions + roundDiv num den)

end Double
end QmlCodeModel
