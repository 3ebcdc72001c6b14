/-! Search by halving. -/
namespace QmlCodeModel

/-- Searches by halving for the last of `size` elements from `base` on that pass the test, when those
that pass come first. If none passes the answer is `base`. -/
def halve {α : Type} (test : α → Bool) (xs : List α) (base size : Nat) : Nat :=
  if size ≤ 1 then base
  else
    let half := size / 2
    halve test xs (if xs[base + half]?.any test then base + half else base) (size - half)
termination_by size
decreasing_by omega

end QmlCodeModel
