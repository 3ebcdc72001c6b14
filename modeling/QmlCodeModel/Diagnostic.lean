import QmlCodeModel.Text.Lines

/-! Messages about a source, each at an offset. -/
namespace QmlCodeModel

/-- How bad a finding is, the mildest first. -/
inductive Severity
  | hint | maybeWarning | warning | maybeError | error
  deriving DecidableEq, Repr

namespace Severity

/-- All severities, in order. -/
def all : List Severity := [.hint, .maybeWarning, .warning, .maybeError, .error]

def rank : Severity → Nat
  | .hint => 0
  | .maybeWarning => 1
  | .warning => 2
  | .maybeError => 3
  | .error => 4

def isError (s : Severity) : Bool := Severity.maybeError.rank ≤ s.rank

/-- The word shown to a reader. -/
def label : Severity → String
  | .hint => "hint"
  | .maybeWarning => "maybe-warning"
  | .warning => "warning"
  | .maybeError => "maybe-error"
  | .error => "error"

/-- The word used in data. -/
def tag : Severity → String
  | .hint => "hint"
  | .maybeWarning => "maybe_warning"
  | .warning => "warning"
  | .maybeError => "maybe_error"
  | .error => "error"

end Severity

structure Diagnostic where
  severity : Severity
  offset : Nat
  place : LineColumn
  message : String
  deriving DecidableEq, Repr

namespace Diagnostic

/-- The line shown to a reader. -/
def render (d : Diagnostic) : String :=
  toString d.place.line ++ ":" ++ toString d.place.column ++ ": " ++ d.severity.label ++ ": " ++
    d.message

/-- Sorts by offset. Messages at one offset stay in their order. -/
def sort (ds : List Diagnostic) : List Diagnostic :=
  ds.mergeSort fun a b => a.offset ≤ b.offset

end Diagnostic
end QmlCodeModel
