import QmlCodeModel.Grammar.Property

/-! Expressions, from the single names and literals up to assignments. -/
namespace QmlCodeModel.Grammar

variable (go : Reader)

/-- An element of an array literal with the comma after it. A comma alone leaves a hole. -/
def arrayRound : Parser (Round (Option Node)) := do
  if ← eatPunct "," then pure ⟨[none], true⟩
  else commaRound (one (some <$> spreadOrAssignment go))

def arrayElements : Parser (List (Option Node)) :=
  collectUntil (·.isPunct "]") (arrayRound go)

def arrayLiteral : Parser Node := do
  let start ← start
  discard bump
  let elements ← withIn true (arrayElements go)
  discard (expectPunct "]")
  finish (.array elements) start

def objectLiteral : Parser Node := do
  let start ← start
  discard bump
  let properties ← withIn true (commaSeparated "\x7d" (one (objectProperty go)))
  discard (expectPunct "\x7d")
  finish (.object properties) start

/-- An error node in place of an expression, where none starts. -/
def missingPrimary (fault : GrammarFault) : Parser Node := do
  reportHere fault
  errorNode

/-- The expression after an opening parenthesis. -/
def groupedInner : Parser Node := do
  if ← atPunct ")" then missingPrimary .expectedExpression else expressionWithIn go

/-- An expression in parentheses, which is the expression. -/
def groupedExpression : Parser Node := do
  discard bump
  let inner ← groupedInner go
  discard (expectPunct ")")
  pure inner

/-- The words that are expressions of their own. -/
def wordLiteral? : String → Option (Kind Node)
  | "this" => some .this
  | "super" => some .super
  | "null" => some .null
  | "true" => some (.boolean true)
  | "false" => some (.boolean false)
  | _ => none

/-- Takes a token that is an expression by itself. -/
def leaf (kind : Kind Node) : Parser Node := do
  let start ← start
  discard bump
  finish kind start

/-- An expression that starts with a name. -/
def namedPrimary (t next : Token) : Parser Node :=
  match wordLiteral? t.text with
  | some kind => leaf kind
  | none =>
    if t.text == "function" || (t.text == "async" && next.isName "function" && !next.newlineBefore)
    then functionExpression go
    else if t.text == "class" then do
      let start ← start
      let parts ← classParts go false
      finish (.classExpression parts) start
    else if t.text == "new" then nested go .newExpression
    else if isReserved t.text then missingPrimary (.unexpectedKeyword t.text)
    else leaf (.identifier t.text)

def readPrimary : Parser Node := do
  let t ← peek
  match t.kind with
  | .name => namedPrimary go t (← ahead 1)
  | .number => leaf (.number t.text)
  | .string => leaf (.string (Token.stringValue t))
  | .template => leaf (.template t.text)
  | .regExp => leaf (.regExp t.text)
  | .punct =>
    if t.text == "(" then groupedExpression go
    else if t.text == "[" then arrayLiteral go
    else if t.text == "\x7b" then objectLiteral go
    else missingPrimary (.unexpectedToken t.text)
  | .eof => missingPrimary .unexpectedEnd

/-- A step after an operand, on the same line. -/
def postfixed : Parser Node := do
  let start ← start
  let argument ← operand go
  let t ← peek
  if t.isStep && !t.newlineBefore then
    discard bump
    finish (.update t.text false argument) start
  else pure argument

/-- An operator in front of its argument. -/
def prefixed (layer : Node → Kind Node) : Parser Node := do
  let start ← start
  discard bump
  let argument ← nested go .unary
  finish (layer argument) start

def readUnary : Parser Node := do
  let t ← peek
  if t.isUnaryOperator then prefixed go (.unary t.text)
  else if t.isStep then prefixed go (.update t.text true)
  else if (← get).inAsync && t.isName "await" then prefixed go .await
  else postfixed go

/-- Extends a left operand by an operator that binds tighter than `above`, and its right operand.
Operators of one precedence group to the left, powers to the right. -/
def extendBinary (start above : Nat) (left : Node) : Parser (Option Node) := do
  let t ← peek
  match t.binaryPrecedence? (← get).allowIn with
  | none => pure none
  | some precedence =>
    if precedence ≤ above then pure none
    else
      discard bump
      let right ← go (.binary (if t.text == "**" then precedence - 1 else precedence))
      some <$> finish (.binary t.text left right) start

def readBinary (above : Nat) : Parser Node := do
  let start ← start
  let left ← readUnary go
  iterate (extendBinary go start above) left

def conditional : Parser Node := do
  let start ← start
  let test ← readBinary go 0
  if ← eatPunct "?" then
    let consequent ← withIn true (assignment go)
    discard (expectPunct ":")
    let alternate ← assignment go
    finish (.conditional test consequent alternate) start
  else pure test

/-- What may stand before an assignment operator. A pattern is assigned to only as a whole. -/
def isAssignable (operator : String) (target : Node) : Bool :=
  match target.kind with
  | .identifier _ | .member _ _ _ | .index _ _ _ => true
  | .array _ | .object _ => operator == "="
  | _ => false

/-- A token before which a `yield` has no argument. -/
def endsYield (t : Token) : Bool :=
  t.newlineBefore || t.kind == .eof ||
    [")", "]", "\x7d", ",", ";", ":"].any fun text => t.isPunct text

def yieldArgument : Parser (Option Node) := do
  if endsYield (← peek) then pure none else some <$> assignment go

def yieldExpression : Parser Node := do
  let start ← start
  discard bump
  let delegate ← eatPunct "*"
  let argument ← yieldArgument go
  finish (.yield argument delegate) start

/-- Reports a target that cannot be assigned to. -/
def checkTarget (operator : String) (target : Node) : Parser Unit :=
  if isAssignable operator target then pure ()
  else report target.span.start .invalidAssignmentTarget

/-- A conditional expression, or an assignment to one. -/
def plainAssignment : Parser Node := do
  let start ← start
  let target ← conditional go
  let t ← peek
  if t.isAssignmentOperator then
    checkTarget t.text target
    discard bump
    let value ← assignment go
    finish (.assign t.text target value) start
  else pure target

def readAssignment : Parser Node := do
  let s ← get
  let async := s.startsAsyncArrow
  match s.arrowHeadAt (if async then 1 else 0) with
  | some head => arrowFunction go async head
  | none =>
    if s.inGenerator && s.peek.isName "yield" then yieldExpression go else plainAssignment go

end QmlCodeModel.Grammar
