import QmlCodeModel.Grammar.Expression

/-! Statements. -/
namespace QmlCodeModel.Grammar

variable (go : Reader)

/-- An expression as a statement. The node ends before the semicolon. -/
def expressionStatement : Parser Node := do
  let start ← start
  let inner ← expression go
  finishStatement (.expressionStatement inner) start

/-- Takes the word that starts a declaration of variables. -/
def variableKind : Parser VariableKind := do
  let t ← bump
  pure (if t.text == "let" then .let else if t.text == "const" then .const else .var)

def variableDeclaration : Parser (Round Node) := do
  let start ← start
  match ← bindingTarget go with
  | none => pure ⟨[], false⟩
  | some target =>
    let init ← defaultValue go
    let node ← finish (.variableDeclaration target init) start
    return ⟨[node], ← eatPunct ","⟩

/-- Declarations separated by commas. What cannot be bound ends them. -/
def variableDeclarations : Parser (List Node) := collect (variableDeclaration go)

def variableStatement : Parser Node := do
  let start ← start
  let kind ← variableKind
  let declarations ← variableDeclarations go
  endStatement
  finish (.variableStatement kind declarations) start

/-- A name that what follows makes a declaration, after the word `let`. -/
def followsLet (next : Token) : Bool :=
  next.kind == .name || next.isPunct "[" || next.isPunct "\x7b"

/-- Whether a declaration of variables comes next. -/
def startsVariables (t next : Token) : Bool :=
  t.isName "var" || t.isName "const" || (t.isName "let" && followsLet next)

def ifStatement : Parser Node := do
  let start ← start
  discard bump
  let test ← parenthesized go
  let consequent ← statement go
  let alternate ← optionally (eatName "else") (statement go)
  finish (.if test consequent alternate) start

def whileStatement : Parser Node := do
  let start ← start
  discard bump
  let test ← parenthesized go
  let body ← statement go
  finish (.while test body) start

def doStatement : Parser Node := do
  let start ← start
  discard bump
  let body ← statement go
  discard (expectName "while")
  let test ← parenthesized go
  discard (eatPunct ";")
  finish (.doWhile body test) start

/-- The first part of a loop's head, in which the word `in` is no operator. -/
def loopStart : Parser (Option Node) := do
  let t ← peek
  if t.isPunct ";" then pure none
  else if startsVariables t (← ahead 1) then
    let start ← start
    let kind ← variableKind
    let declarations ← withIn false (variableDeclarations go)
    some <$> finish (.variableStatement kind declarations) start
  else some <$> withIn false (expression go)

/-- The word between the two parts of a loop over a collection. -/
def loopWord : Parser (Option ForEachKind) := do
  if ← eatName "of" then pure (some .of)
  else if ← eatName "in" then pure (some .in)
  else pure none

/-- A loop over a collection, from the collection on. -/
def forEach (start : Nat) (kind : ForEachKind) (left : Node) : Parser Node := do
  let right ← expressionWithIn go
  discard (expectPunct ")")
  let body ← statement go
  finish (.forEach kind left right body) start

/-- A part of a loop's head, unless the punctuator after it comes at once. -/
def loopPart (close : String) : Parser (Option Node) := do
  if ← atPunct close then pure none else some <$> expressionWithIn go

/-- A loop with a condition, from the first semicolon on. -/
def forLoop (start : Nat) (init : Option Node) : Parser Node := do
  discard (expectPunct ";")
  let test ← loopPart go ";"
  discard (expectPunct ";")
  let update ← loopPart go ")"
  discard (expectPunct ")")
  let body ← statement go
  finish (.for init test update body) start

def forStatement : Parser Node := do
  let start ← start
  discard bump
  discard (expectPunct "(")
  match ← loopStart go with
  | none => forLoop go start none
  | some left =>
    match ← loopWord with
    | some kind => forEach go start kind left
    | none => forLoop go start (some left)

/-- The label that may follow on the line. -/
def jumpLabel : Parser (Option Ident) := do
  let t ← peek
  if t.isBindable && !t.newlineBefore then identifier else pure none

/-- A word that leaves or repeats a loop. -/
def jumpStatement (layer : Option Ident → Kind Node) : Parser Node := do
  let start ← start
  discard bump
  let label ← jumpLabel
  endStatement
  finish (layer label) start

/-- A token before which a `return` has no argument. -/
def endsReturn (t : Token) : Bool :=
  t.isPunct ";" || t.isPunct "\x7d" || t.kind == .eof || t.newlineBefore

def returnArgument : Parser (Option Node) := do
  if endsReturn (← peek) then pure none else some <$> expression go

def returnStatement : Parser Node := do
  let start ← start
  discard bump
  let argument ← returnArgument go
  endStatement
  finish (.return argument) start

def throwStatement : Parser Node := do
  let start ← start
  discard bump
  let t ← peek
  reportIf t.newlineBefore .lineBreakAfterThrow
  let argument ← expression go
  endStatement
  finish (.throw argument) start

def debuggerStatement : Parser Node := do
  let start ← start
  discard bump
  endStatement
  finish .debugger start

/-- A case of a switch, from the colon on. -/
def caseBody (start : Nat) (test : Option Node) : Parser (Round Node) := do
  discard (expectPunct ":")
  let body ← statementsUntil go fun t =>
    t.isPunct "\x7d" || t.isName "case" || t.isName "default"
  return ⟨[← finish (.case test body) start], true⟩

/-- A case of a switch. A token that starts none is skipped. -/
def switchCase : Parser (Round Node) := do
  let start ← start
  if ← eatName "case" then
    let test ← expressionWithIn go
    caseBody go start (some test)
  else if ← eatName "default" then caseBody go start none
  else
    reportHere .expectedCase
    discard bump
    pure ⟨[], true⟩

def switchStatement : Parser Node := do
  let start ← start
  discard bump
  let discriminant ← parenthesized go
  discard (expectPunct "\x7b")
  let cases ← collectUntil (·.isPunct "\x7d") (switchCase go)
  discard (expectPunct "\x7d")
  finish (.switch discriminant cases) start

/-- What a `catch` binds, if it binds anything. -/
def catchParameter : Parser (Option (BindingTarget Node)) := do
  if ← eatPunct "(" then
    let param ← bindingTarget go
    discard (expectPunct ")")
    pure param
  else pure none

/-- A `catch` with its block, if there is one. -/
def catchClause : Parser (Option (BindingTarget Node) × Option Node) := do
  if ← eatName "catch" then
    let param ← catchParameter go
    let handler ← block go
    pure (param, some handler)
  else pure (none, none)

def tryStatement : Parser Node := do
  let start ← start
  discard bump
  let body ← block go
  let (param, handler) ← catchClause go
  let finalizer ← optionally (eatName "finally") (block go)
  reportIf (handler.isNone && finalizer.isNone) .expectedHandler
  finish (.try body param handler finalizer) start

def classDeclaration : Parser Node := do
  let start ← start
  let parts ← classParts go true
  finish (.classDeclaration parts) start

def labelledStatement : Parser Node := do
  let start ← start
  let label := identOf (← bump)
  discard bump
  let body ← statement go
  finish (.labelled label body) start

/-- A statement that starts with a name. -/
def namedStatement (t next : Token) : Parser Node :=
  if startsVariables t next then variableStatement go
  else
    match t.text with
    | "if" => ifStatement go
    | "for" => forStatement go
    | "while" => whileStatement go
    | "do" => doStatement go
    | "continue" => jumpStatement .continue
    | "break" => jumpStatement .break
    | "return" => returnStatement go
    | "throw" => throwStatement go
    | "switch" => switchStatement go
    | "try" => tryStatement go
    | "debugger" => debuggerStatement
    | "function" => functionDeclaration go
    | "class" => classDeclaration go
    | _ =>
      if t.text == "async" && next.isName "function" && !next.newlineBefore then
        functionDeclaration go
      else if next.isPunct ":" && !isReserved t.text then labelledStatement go
      else expressionStatement go

def readStatement : Parser Node := do
  let t ← peek
  if t.kind == .name then namedStatement go t (← ahead 1)
  else if t.isPunct "\x7b" then block go
  else if t.isPunct ";" then leaf .empty
  else expressionStatement go

end QmlCodeModel.Grammar
