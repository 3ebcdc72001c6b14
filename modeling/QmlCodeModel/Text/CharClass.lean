/-! Sets of characters, given by the code points at which membership changes. -/
namespace QmlCodeModel

/-- A set of characters. Going up through the code points, membership starts as `false` and changes
at each element of `flips`, which is in increasing order. -/
structure CharClass where
  flips : List Nat

namespace CharClass

/-- A character is in the set when an odd number of changes lies at or below it. -/
def contains (s : CharClass) (c : Char) : Bool :=
  (s.flips.takeWhile (· ≤ c.toNat)).length % 2 == 1

instance : Membership Char CharClass where
  mem s c := s.contains c

/-- The characters with the property White_Space. -/
def blank : CharClass where
  flips := [
    0x9, 0xe, 0x20, 0x21, 0x85, 0x86, 0xa0, 0xa1, 0x1680, 0x1681, 0x2000, 0x200b, 0x2028, 0x202a,
    0x202f, 0x2030, 0x205f, 0x2060, 0x3000, 0x3001]

end CharClass
end QmlCodeModel
