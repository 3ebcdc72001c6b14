import QmlCodeModel.Grammar.Operand

/-! Blocks, binding targets and functions. -/
namespace QmlCodeModel.Grammar

variable (go : Reader)

/-- Statements up to a token where they stop. -/
def statementsUntil (stops : Token → Bool) : Parser (List Node) :=
  collectUntil stops (everyRound (one (statement go)))

def block : Parser Node := do
  let start ← start
  discard (expectPunct "\x7b")
  let statements ← statementsUntil go (·.isPunct "\x7d")
  discard (expectPunct "\x7d")
  finish (.block statements) start

/-- The block of a function, in the function's own surroundings. -/
def functionBody (async generator : Bool) : Parser Node :=
  inFunction async generator (withIn true (block go))

/-- The block of an arrow function, or the expression that it answers. -/
def arrowBody (async : Bool) : Parser Node := do
  if ← atPunct "\x7b" then functionBody go async false
  else inFunction async false (assignment go)

def bindingTarget : Parser (Option (BindingTarget Node)) := do
  let t ← peek
  if t.isPunct "[" || t.isPunct "\x7b" then
    let literal ← withIn true (primary go)
    pure (some (.pattern literal))
  else return (← bindingIdentifier).map .name

/-- The value after an equals sign, if there is one. -/
def defaultValue : Parser (Option Node) := optionally (eatPunct "=") (assignment go)

def formalParameter : Parser (List (FormalParameter Node)) := do
  let rest ← eatPunct "..."
  match ← bindingTarget go with
  | some target =>
    let default ← defaultValue go
    pure [{ target, default, rest }]
  | none => pure []

def formalParameters : Parser (List (FormalParameter Node)) := do
  if ← expectPunct "(" then
    let params ← withIn true (commaSeparated ")" (formalParameter go))
    discard (expectPunct ")")
    pure params
  else pure []

/-- The name of a function or a class, which a declaration must have. -/
def declaredName (required : Bool) (isName : Token → Bool) (missing : GrammarFault) :
    Parser (Option Ident) := do
  if isName (← peek) then bindingIdentifier
  else
    reportIf required missing
    pure none

/-- A function from the words `async` and `function` on. -/
def function (nameRequired : Bool) : Parser (FunctionParts Node) := do
  let async ← eatName "async"
  discard bump
  let generator ← eatPunct "*"
  let name ← declaredName nameRequired (·.kind == .name) .expectedFunctionName
  let params ← formalParameters go
  let body ← functionBody go async generator
  pure { name, params, body, arrow := false, async, generator }

def functionDeclaration : Parser Node := do
  let start ← start
  let parts ← function go true
  finish (.functionDeclaration parts) start

def functionExpression : Parser Node := do
  let start ← start
  let parts ← function go false
  finish (.functionExpression parts) start

/-- Whether the bracket that closes the first one is followed by an arrow on its line. -/
def closesBeforeArrow : Nat → List Token → Bool
  | _, [] => false
  | depth, t :: rest =>
    if t.isOpening then closesBeforeArrow (depth + 1) rest
    else if t.isClosing then
      if depth ≤ 1 then rest.head?.any fun next => next.isPunct "=>" && !next.newlineBefore
      else closesBeforeArrow (depth - 1) rest
    else closesBeforeArrow depth rest

/-- How the parameters of an arrow function are written. -/
inductive ArrowHead
  | name | list
  deriving DecidableEq, Repr

/-- Whether parameters in parentheses, followed by an arrow, start after `n` tokens. -/
def State.arrowListAt (s : State) (n : Nat) : Bool :=
  (s.ahead n).isPunct "(" && closesBeforeArrow 0 (s.rest.drop n)

/-- Whether the word `async` that comes next belongs to an arrow function. -/
def State.startsAsyncArrow (s : State) : Bool :=
  s.peek.isName "async" && !(s.ahead 1).newlineBefore &&
    (((s.ahead 1).kind == .name && (s.ahead 2).isPunct "=>") || s.arrowListAt 1)

/-- The head of the arrow function that starts after `n` tokens, if one does. -/
def State.arrowHeadAt (s : State) (n : Nat) : Option ArrowHead :=
  if (s.ahead n).isBindable && (s.ahead (n + 1)).isPunct "=>" then some .name
  else if s.arrowListAt n then some .list
  else none

def arrowParameters : ArrowHead → Parser (List (FormalParameter Node))
  | .name => do
    let t ← bump
    pure [{ target := .name (identOf t), default := none, rest := false }]
  | .list => formalParameters go

def arrowFunction (async : Bool) (head : ArrowHead) : Parser Node := do
  let start ← start
  skipIf async
  let params ← arrowParameters go head
  discard (expectPunct "=>")
  let body ← arrowBody go async
  finish (.functionExpression { name := none, params, body, arrow := true, async, generator := false })
    start

end QmlCodeModel.Grammar
