import QmlCodeModel.Number.Double

/-! The decimal text of a number with the fewest digits that read back as the number, and among those
the nearest to it, away from zero where two are equally near. No exponent is written. -/
namespace QmlCodeModel.Double

/-- The positive fractions that read back as one number, all over one denominator: those from `low`
to `high`, the ends themselves only if `closed`. -/
structure Interval where
  low : Nat
  value : Nat
  high : Nat
  den : Nat
  closed : Bool
  deriving Repr

/-- The interval of a finite number that is not zero. It reaches half way to the neighbours, and the
lower one is nearer at a power of two. -/
def Parts.interval (p : Parts) : Interval :=
  let narrow := p.significand == fractions && p.exponent > -1074
  let (four, den) := scale 2 p.exponent 1 4
  let unit := four
  ⟨(4 * p.significand - if narrow then 1 else 2) * unit, 4 * p.significand * unit,
    (4 * p.significand + 2) * unit, den, p.significand % 2 == 0⟩

/-- Whether the decimal `digits * 10 ^ exponent` lies in the interval. -/
def Interval.holds (i : Interval) (digits : Nat) (exponent : Int) : Bool :=
  let (point, unit) := scale 10 exponent (digits * i.den) 1
  if i.closed then i.low * unit ≤ point && point ≤ i.high * unit
  else i.low * unit < point && point < i.high * unit

/-- Of the two multiples of `10 ^ exponent` around the value those that lie in the interval, the one
nearer to the value first. Of two that are equally near the greater comes first. -/
def Interval.candidates (i : Interval) (exponent : Int) : List Nat :=
  let (den, num) := scale 10 exponent i.den i.value
  let below := num / den
  let ordered := if 2 * (num % den) < den then [below, below + 1] else [below + 1, below]
  ordered.filter (i.holds · exponent)

/-- The least power of ten above the value, by its exponent, searched downward from a start. -/
def Interval.magnitudeFrom (i : Interval) : Nat → Int → Int
  | 0, exponent => exponent
  | fuel + 1, exponent =>
    let (power, value) := scale 10 (exponent - 1) i.den i.value
    if power ≤ value then exponent else i.magnitudeFrom fuel (exponent - 1)

/-- The exponent of the least power of ten above the value of a finite number. -/
def Interval.magnitude (i : Interval) : Int := i.magnitudeFrom 640 310

/-- The first multiple found when the grid gets finer, with the exponent of its grid. Seventeen
digits always suffice. -/
def Interval.shortestFrom (i : Interval) (magnitude : Int) : Nat → Nat → Nat × Int
  | 0, _ => (0, 0)
  | fuel + 1, count =>
    match i.candidates (magnitude - count) with
    | digits :: _ => (digits, magnitude - count)
    | [] => i.shortestFrom magnitude fuel (count + 1)

/-- A last zero is dropped: it is there when a value was rounded up to the next power of ten. -/
def Interval.shortest (i : Interval) : Nat × Int :=
  let (digits, exponent) := i.shortestFrom i.magnitude 17 1
  if digits % 10 = 0 then (digits / 10, exponent + 1) else (digits, exponent)

/-- Digits and an exponent of ten written without an exponent. -/
def positional (digits : Nat) (exponent : Int) : String :=
  let text := Nat.toDigits 10 digits
  if 0 ≤ exponent then String.ofList (text ++ List.replicate exponent.toNat '0')
  else
    let places := (-exponent).toNat
    let padded := List.replicate (places + 1 - text.length) '0' ++ text
    let whole := padded.take (padded.length - places)
    let fraction := padded.drop (padded.length - places)
    String.ofList (whole ++ '.' :: fraction)

/-- The decimal text of a number. -/
def toText (x : Double) : String :=
  if x.isNaN then "NaN"
  else
    let body :=
      if x.isInfinite then "inf"
      else if x.isZero then "0"
      else
        let (digits, exponent) := x.parts.interval.shortest
        positional digits exponent
    if x.isNegative then "-" ++ body else body

end QmlCodeModel.Double
