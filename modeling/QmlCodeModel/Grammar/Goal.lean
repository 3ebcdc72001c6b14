import QmlCodeModel.Grammar.Loop

/-! The parts of the grammar that contain one another. Each other part is written over a way to read
these, so that the recursion is tied in one place only. -/
namespace QmlCodeModel.Grammar

/-- What can be read inside itself. -/
inductive Goal
  | statement
  | assignment
  | unary
  | newExpression
  | primary
  | initializer
  /-- Operators that bind tighter than this precedence, and their operands. -/
  | binary (above : Nat)
  deriving DecidableEq, Repr

/-- A way to read each goal. -/
abbrev Reader := Goal → Parser Node

/-- Reads a goal one level deeper. At the deepest level an error node stands for it, and no token is
taken. -/
def nested (go : Reader) (goal : Goal) : Parser Node := do
  if maxNesting ≤ (← get).depth then
    reportHere .tooDeep
    errorNode
  else
    modify fun s => { s with depth := s.depth + 1 }
    let node ← go goal
    modify fun s => { s with depth := s.depth - 1 }
    pure node

section

variable (go : Reader)

def statement : Parser Node := nested go .statement

def assignment : Parser Node := nested go .assignment

def primary : Parser Node := nested go .primary

def initializer : Parser Node := nested go .initializer

end

end QmlCodeModel.Grammar
