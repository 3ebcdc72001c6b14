import QmlCodeModel.Grammar.Goal

/-! Expressions in a row, arguments, and what may follow an operand: members, indexes, calls and
templates. -/
namespace QmlCodeModel.Grammar

variable (go : Reader)

/-- One more expression in a row, if a comma comes next. -/
def nextExpression : Parser (Round Node) := do
  if ← eatPunct "," then return ⟨[← assignment go], true⟩ else pure ⟨[], false⟩

/-- An expression, or several with commas between them. -/
def expression : Parser Node := do
  let start ← start
  let first ← assignment go
  if ← atPunct "," then
    let later ← collect (nextExpression go)
    finish (.sequence (first :: later)) start
  else pure first

def expressionWithIn : Parser Node := withIn true (expression go)

/-- A condition in parentheses. -/
def parenthesized : Parser Node := do
  discard (expectPunct "(")
  let inner ← expressionWithIn go
  discard (expectPunct ")")
  pure inner

def spreadOrAssignment : Parser Node := do
  let start ← start
  if ← eatPunct "..." then
    let argument ← assignment go
    finish (.spread argument) start
  else assignment go

/-- The arguments of a call. The opening parenthesis comes next. -/
def arguments : Parser (List Node) := do
  discard bump
  let items ← withIn true (commaSeparated ")" (one (spreadOrAssignment go)))
  discard (expectPunct ")")
  pure items

/-- The member that a name selects; nothing if no name follows. -/
def memberOf (start : Nat) (object : Node) (optional : Bool) : Parser (Option Node) := do
  match ← identifier with
  | some property => some <$> finish (.member object property optional) start
  | none => pure none

/-- The element that an index selects. The opening bracket has been taken. -/
def indexOf (start : Nat) (object : Node) (optional : Bool) : Parser (Option Node) := do
  let index ← expressionWithIn go
  discard (expectPunct "]")
  some <$> finish (.index object index optional) start

def callOf (start : Nat) (callee : Node) (optional : Bool) : Parser (Option Node) := do
  let items ← arguments go
  some <$> finish (.call callee items optional) start

/-- Extends an operand by what follows it, if that belongs to it. -/
def extendOperand (start : Nat) (allowCalls : Bool) (operand : Node) : Parser (Option Node) := do
  let t ← peek
  if t.isPunct "." then
    discard bump
    memberOf start operand false
  else if t.isPunct "?." && allowCalls then
    discard bump
    if ← atPunct "(" then callOf go start operand true
    else if ← eatPunct "[" then indexOf go start operand true
    else memberOf start operand true
  else if t.isPunct "[" then
    discard bump
    indexOf go start operand false
  else if t.isPunct "(" && allowCalls then callOf go start operand false
  else if t.kind == .template then
    let quasi ← primary go
    some <$> finish (.taggedTemplate operand quasi) start
  else pure none

def operandTail (start : Nat) (allowCalls : Bool) (operand : Node) : Parser Node :=
  iterate (extendOperand go start allowCalls) operand

/-- What stands before a tail: `new` with its callee, or a primary expression. -/
def operandHead : Parser Node := do
  if ← atName "new" then nested go .newExpression else primary go

/-- An operand with all that follows it. -/
def operand : Parser Node := do
  let start ← start
  let head ← operandHead go
  operandTail go start true head

/-- What `new` calls: an operand without calls. -/
def callee : Parser Node := do
  let start ← start
  let head ← operandHead go
  operandTail go start false head

/-- The arguments after a callee, which may be missing. -/
def calleeArguments : Parser (List Node) := do
  if ← atPunct "(" then arguments go else pure []

/-- The property of a word that is no expression by itself. The dot comes next. -/
def metaProperty (start : Nat) (word : String) : Parser Node := do
  let owner ← finish (.identifier word) start
  discard bump
  return (← memberOf start owner false).getD owner

/-- The expression that `new` starts: `new.target` or a callee with its arguments. -/
def readNew : Parser Node := do
  let start ← start
  let keyword ← bump
  if ← atPunct "." then metaProperty start keyword.text
  else
    let callee ← callee go
    let items ← calleeArguments go
    finish (.new callee items) start

end QmlCodeModel.Grammar
