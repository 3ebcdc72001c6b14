import QmlCodeModel.Grammar.Function

/-! Members of object literals and of classes. -/
namespace QmlCodeModel.Grammar

/-- A token that can start the key of a property, or its star. -/
def startsPropertyKey (t : Token) : Bool :=
  t.kind == .name || t.kind == .string || t.kind == .number || t.isPunct "[" || t.isPunct "*"

/-- What stands before the key of a property. -/
structure PropertyModifiers where
  kind : PropertyKind := .init
  async : Bool := false
  generator : Bool := false

/-- The words `get`, `set` and `async` are modifiers only if a key follows. -/
def propertyWord : Parser PropertyModifiers := do
  let t ← peek
  let next ← ahead 1
  if (t.isName "get" || t.isName "set") && startsPropertyKey next then
    discard bump
    pure { kind := if t.text == "get" then .getter else .setter }
  else if t.isName "async" && startsPropertyKey next && !next.newlineBefore then
    discard bump
    pure { kind := .method, async := true }
  else pure {}

def propertyModifiers : Parser PropertyModifiers := do
  let before ← propertyWord
  if ← eatPunct "*" then pure { before with kind := .method, generator := true } else pure before

/-- The value of the text of a token as a string. -/
def Token.stringValue (t : Token) : String :=
  String.ofList (QmlCodeModel.stringValue t.text.toList)

section

variable (go : Reader)

/-- The key of a property. One that is missing is an empty name. -/
def propertyKey : Parser (PropertyKey Node) := do
  let t ← peek
  match t.kind with
  | .name =>
    discard bump
    pure (.name t.text)
  | .string =>
    discard bump
    pure (.string (Token.stringValue t))
  | .number =>
    discard bump
    pure (.number t.text)
  | _ =>
    if t.isPunct "[" then
      discard bump
      let key ← withIn true (assignment go)
      discard (expectPunct "]")
      pure (.computed key)
    else
      reportHere .expectedPropertyName
      pure (.name "")

/-- The function of a method or an accessor, from its parameters on. -/
def method (async generator : Bool) : Parser Node := do
  let start ← start
  let params ← formalParameters go
  let body ← functionBody go async generator
  finish (.functionExpression { name := none, params, body, arrow := false, async, generator }) start

def methodProperty (key : PropertyKey Node) (modifiers : PropertyModifiers) (isStatic : Bool)
    (start : Nat) : Parser Node := do
  let method ← method go modifiers.async modifiers.generator
  let kind := if modifiers.kind == .init then .method else modifiers.kind
  finish (.property key (some method) kind isStatic) start

/-- A field of a class, from the equals sign on. -/
def fieldProperty (key : PropertyKey Node) (isStatic : Bool) (start : Nat) : Parser Node := do
  let value ← optionally (eatPunct "=") (withIn true (assignment go))
  endStatement
  finish (.property key value .init isStatic) start

/-- The value of a name alone: itself, or in a pattern the name with a default. The name has been
taken. -/
def shorthandValue (name : String) (nameStart : Nat) : Parser Node := do
  let ident ← finish (.identifier name) nameStart
  if ← eatPunct "=" then
    let default ← assignment go
    finish (.assign "=" ident default) nameStart
  else pure ident

/-- A name alone, which is its own value, or in a pattern a name with a default. -/
def shorthandProperty (name : String) (nameStart start : Nat) : Parser Node := do
  let value ← shorthandValue go name nameStart
  finish (.property (.name name) (some value) .shorthand false) start

/-- The name that a key is, if it is one and is not missing. -/
def plainName? : PropertyKey Node → Option String
  | .name text => if text.isEmpty then none else some text
  | _ => none

/-- A member of an object literal, after its key. -/
def literalProperty (key : PropertyKey Node) (keyStart : Nat) (modifiers : PropertyModifiers)
    (isStatic : Bool) (start : Nat) : Parser Node := do
  if ← eatPunct ":" then
    let value ← assignment go
    finish (.property key (some value) .init false) start
  else
    match plainName? key with
    | some name => shorthandProperty go name keyStart start
    | none =>
      reportHere (.expected ":")
      finish (.property key none modifiers.kind isStatic) start

/-- A member of an object literal or of a class that is no spread. -/
def namedProperty (inClass isStatic : Bool) (start : Nat) : Parser Node := do
  let modifiers ← propertyModifiers
  let keyStart ← Grammar.start
  let key ← propertyKey go
  if ← atPunct "(" then methodProperty go key modifiers isStatic start
  else if inClass then fieldProperty go key isStatic start
  else literalProperty go key keyStart modifiers isStatic start

/-- A member of an object literal. -/
def objectProperty : Parser Node := do
  let start ← start
  if ← eatPunct "..." then
    let argument ← assignment go
    finish (.property (.name "") (some argument) .spread false) start
  else namedProperty go false false start

/-- A member of a class. The word `static` is a modifier unless it is the member's name. -/
def classElement : Parser Node := do
  let start ← start
  let next ← ahead 1
  let isStatic := (← peek).isName "static" && next.text ∉ ["(", "=", ";", "\x7d"]
  skipIf isStatic
  namedProperty go true isStatic start

/-- A member of a class or a semicolon between members. -/
def classRound : Parser (Round Node) := do
  if ← eatPunct ";" then pure ⟨[], true⟩ else everyRound (one (classElement go))

def classElements : Parser (List Node) := collectUntil (·.isPunct "\x7d") (classRound go)

/-- A class from the word `class` on. -/
def classParts (nameRequired : Bool) : Parser (ClassParts Node) := do
  discard bump
  let name ← declaredName nameRequired (fun t => t.kind == .name && !t.isName "extends")
    .expectedClassName
  let heritage ← optionally (eatName "extends") (operand go)
  discard (expectPunct "\x7b")
  let elements ← classElements go
  discard (expectPunct "\x7d")
  pure { name, heritage, elements }

end

end QmlCodeModel.Grammar
