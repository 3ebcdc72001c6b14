import QmlCodeModel.Text.Numeral
import QmlCodeModel.Text.Split

/-! Versions of modules and components. -/
namespace QmlCodeModel

/-- A version of two numbers, either of which may be missing. -/
structure ComponentVersion where
  major : Option Nat := none
  minor : Option Nat := none
  deriving DecidableEq, Repr, Inhabited

namespace ComponentVersion

/-- Reads the number before the first dot and the number after it. What is no number below 2³² is
missing. -/
def parse (text : String) : ComponentVersion :=
  let (major, minor) := splitOnce '.' text.toList
  ⟨word32? 10 (trimBlanks major), minor.bind fun part => word32? 10 (trimBlanks part)⟩

def isValid (v : ComponentVersion) : Bool := v.major.isSome

/-- The version as text. Without a first number there is none. -/
def render (v : ComponentVersion) : String :=
  match v.major, v.minor with
  | some major, some minor => toString major ++ "." ++ toString minor
  | some major, none => toString major
  | none, _ => ""

/-- What orders a number that may be missing: missing comes first. -/
def key : Option Nat → Nat
  | none => 0
  | some n => n + 1

/-- Compares by the first number, then by the second. -/
def le (v w : ComponentVersion) : Bool :=
  key v.major < key w.major || (key v.major == key w.major && key v.minor ≤ key w.minor)

end ComponentVersion
end QmlCodeModel
