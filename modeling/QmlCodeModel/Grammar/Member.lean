import QmlCodeModel.Grammar.Statement
import QmlCodeModel.Number.Reading
import QmlCodeModel.Text.CharClass.LetterCase

/-! Objects of a QML document and their members. -/
namespace QmlCodeModel.Grammar

/-- The parts of a dotted name after the first. A dot without a name after it is left. -/
def nameTail : Parser (Round Ident) := do
  if (← peek).isPunct "." && (← ahead 1).kind == .name then
    discard bump
    return ⟨[identOf (← bump)], true⟩
  else pure ⟨[], false⟩

/-- A dotted name; without parts if no name comes next. -/
def qualifiedName : Parser QualifiedName := do
  match ← identifier with
  | some first => return ⟨first :: (← collect nameTail)⟩
  | none => pure {}

/-- The last name of a dotted name that starts the tokens with this one, and the token after it. -/
def dottedEnd (last : Token) : List Token → Token × Option Token
  | dot :: name :: rest =>
    if dot.isPunct "." && name.kind == .name then dottedEnd name rest else (last, some dot)
  | [t] => (last, some t)
  | [] => (last, none)

/-- Whether tokens start with a dotted name and an opening brace. The last name may have to be that of
a type, which has a capital. -/
def startsObject (typeNamed : Bool) : List Token → Bool
  | first :: rest =>
    let (last, next) := dottedEnd first rest
    first.isBindable && next.any (·.isPunct "\x7b") &&
      (!typeNamed || startsUppercase last.text)
  | [] => false

/-- Whether a bracket and, right after it, an object come next. -/
def startsObjectArray : List Token → Bool
  | t :: rest => t.isPunct "[" && startsObject true rest
  | [] => false

/-- A type of a property, which may be a list of a type. -/
def memberType : Parser QualifiedName := do
  if (← atName "list") && (← ahead 1).isPunct "<" then
    discard bump
    discard bump
    let inner ← qualifiedName
    discard (expectPunct ">")
    pure inner
  else qualifiedName

/-- A parameter of a signal: a name with its type after a colon, or a type and a name. -/
def signalParameter : Parser (List SignalParameter) := do
  if (← peek).kind == .name && (← ahead 1).isPunct ":" then
    let name := identOf (← bump)
    discard bump
    let typeName ← memberType
    pure [⟨name, some typeName⟩]
  else
    let typeName ← memberType
    match ← identifier with
    | some name => pure [⟨name, some typeName⟩]
    | none => pure []

def signalParameters : Parser (List SignalParameter) := do
  if ← eatPunct "(" then
    let parameters ← commaSeparated ")" signalParameter
    discard (expectPunct ")")
    pure parameters
  else pure []

def signalMember : Parser Node := do
  let start ← start
  discard bump
  match ← identifier with
  | none => finish .error start
  | some name =>
    let parameters ← signalParameters
    endStatement
    finish (.publicMember { kind := .signal, name, parameters }) start

/-- The value of an enumeration member, after the equals sign. A number that is not written in
decimal has none. -/
def enumValue : Parser (Option Double) := do
  let negative ← eatPunct "-"
  if (← peek).kind == .number then
    let t ← bump
    let value := Double.ofDecimalText? t.text.toList
    pure (value.map fun v => if negative then v.neg else v)
  else
    reportHere .expectedEnumValue
    pure none

def enumInitializer : Parser (Option Double) := do
  if ← eatPunct "=" then enumValue else pure none

def enumMember : Parser (List EnumMember) := do
  match ← identifier with
  | some name =>
    let value ← enumInitializer
    pure [⟨name, value⟩]
  | none => pure []

def enumDeclaration : Parser Node := do
  let start ← start
  discard bump
  match ← identifier with
  | none => finish .error start
  | some name =>
    discard (expectPunct "\x7b")
    let members ← commaSeparated "\x7d" enumMember
    discard (expectPunct "\x7d")
    finish (.enumDeclaration name members) start

/-- The words before a declaration of a property. -/
structure MemberModifiers where
  isDefault : Bool := false
  isReadonly : Bool := false
  isRequired : Bool := false

/-- The modifiers found so far with that of a token, if the token is one. -/
def MemberModifiers.note (found : MemberModifiers) (t : Token) : Option MemberModifiers :=
  if t.isName "default" then some { found with isDefault := true }
  else if t.isName "readonly" then some { found with isReadonly := true }
  else if t.isName "required" then some { found with isRequired := true }
  else none

/-- Notes the next token if it is a modifier and a name follows. -/
def memberModifier (found : MemberModifiers) : Parser (Option MemberModifiers) := do
  let t ← peek
  if (← ahead 1).kind == .name then
    let noted := found.note t
    skipIf noted.isSome
    pure noted
  else pure none

/-- The type of a declared property, and the word before it if it is a list of a type. -/
def declaredType : Parser (QualifiedName × Option Ident) := do
  if (← atName "list") && (← ahead 1).isPunct "<" then
    let modifier := identOf (← bump)
    discard bump
    let inner ← qualifiedName
    discard (expectPunct ">")
    pure (inner, some modifier)
  else return (← qualifiedName, none)

section

variable (go : Reader)

/-- A type name, and the braces with the members. -/
def objectDefinition : Parser Node := do
  let start ← start
  let typeName ← qualifiedName
  let init ← initializer go
  finish (.objectDefinition typeName init) start

def arrayMember : Parser (List Node) := do
  if startsObject false (← upcoming) then return [← objectDefinition go]
  else
    reportHere .expectedObjectDefinition
    pure []

/-- Objects in brackets, and the span of the brackets. -/
def objectArray : Parser (List Node × Span) := do
  let start ← start
  discard bump
  let members ← commaSeparated "]" (arrayMember go)
  discard (expectPunct "]")
  return (members, (← get).spanFrom start)

/-- The words that start a statement where a script is expected. -/
def scriptWords : List String :=
  ["if", "switch", "try", "for", "while", "do", "var", "let", "const", "return", "throw"]

/-- The script after a colon: a statement where its first token says so, else an expression. -/
def script : Parser Node := do
  let t ← peek
  if t.isPunct "\x7b" || t.isPunct ";" || (t.kind == .name && scriptWords.contains t.text) then
    statement go
  else expressionStatement go

/-- The first value of a declared property: a script, or an object or array of objects. -/
structure FirstValue where
  statement : Option Node := none
  binding : Option Node := none

def firstValue (name : Ident) : Parser FirstValue := do
  if ← eatPunct ":" then
    let tokens ← upcoming
    if startsObject true tokens then return { binding := some (← objectDefinition go) }
    else if startsObjectArray tokens then
      let (members, brackets) ← objectArray go
      let array ← make brackets (.arrayBinding ⟨[name]⟩ members brackets)
      pure { binding := some array }
    else return { statement := some (← script go) }
  else
    endStatement
    pure {}

/-- A declared property, after the word `property`. -/
def propertyMember (start : Nat) (modifiers : MemberModifiers) : Parser Node := do
  let (typeName, typeModifier) ← declaredType
  match ← identifier with
  | none => finish .error start
  | some name =>
    let value ← firstValue go name
    finish (.publicMember {
      kind := .property, name, memberType := some typeName, typeModifier
      isDefault := modifiers.isDefault, isReadonly := modifiers.isReadonly
      isRequired := modifiers.isRequired
      statement := value.statement, binding := value.binding }) start

/-- The name of a property that is only said to be required. -/
def requiredName (modifiers : MemberModifiers) : Parser (Option Ident) :=
  if modifiers.isRequired then identifier else pure none

/-- A property that is only said to be required, or else an error. -/
def requiredMember (start : Nat) (modifiers : MemberModifiers) : Parser Node := do
  match ← requiredName modifiers with
  | some name =>
    endStatement
    finish (.publicMember {
      kind := .property, name
      isDefault := modifiers.isDefault, isReadonly := modifiers.isReadonly
      isRequired := modifiers.isRequired }) start
  | none =>
    reportHere (.expected "property")
    finish .error start

def publicMember : Parser Node := do
  let start ← start
  let modifiers ← iterate memberModifier {}
  if ← eatName "property" then propertyMember go start modifiers
  else requiredMember start modifiers

/-- A value for a property, after the name and the colon. -/
def boundValue (start : Nat) (name : QualifiedName) : Parser Node := do
  let tokens ← upcoming
  if startsObject true tokens then
    let typeName ← qualifiedName
    let init ← initializer go
    finish (.objectBinding name typeName init false) start
  else if startsObjectArray tokens then
    let (members, brackets) ← objectArray go
    finish (.arrayBinding name members brackets) start
  else
    let value ← script go
    make ⟨start, value.span.stop⟩ (.scriptBinding name value)

/-- A member that starts with a dotted name: an object put on a property, an object or a group of
properties in braces, or a value after a colon. -/
def bindingMember : Parser Node := do
  let start ← start
  let name ← qualifiedName
  if (← atName "on") && (← ahead 1).kind == .name then
    discard bump
    let target ← qualifiedName
    let init ← initializer go
    finish (.objectBinding target name init true) start
  else if ← atPunct "\x7b" then
    let init ← initializer go
    finish (.objectDefinition name init) start
  else if ← expectPunct ":" then boundValue go start name
  else finish .error start

/-- A function or variables among the members. -/
def sourceElement (element : Parser Node) : Parser Node := do
  let node ← element
  make node.span (.sourceElement node)

/-- What comes right after a name that is bound, and no word of the grammar. -/
def binds (next : Token) : Bool := next.isPunct ":" || next.isPunct "." || next.isPunct "\x7b"

/-- A member that starts with a name. -/
def namedMember (t next afterNext : Token) : Parser Node :=
  if ["property", "default", "readonly", "required"].contains t.text && !binds next then
    publicMember go
  else if t.text == "signal" && next.kind == .name then signalMember
  else if t.text == "enum" && next.kind == .name && afterNext.isPunct "\x7b" then enumDeclaration
  else if t.text == "function" && !binds next then sourceElement (functionDeclaration go)
  else if t.text == "async" && next.isName "function" && !next.newlineBefore then
    sourceElement (functionDeclaration go)
  else if ["var", "let", "const"].contains t.text && next.kind == .name then
    sourceElement (variableStatement go)
  else bindingMember go

def objectMember : Parser (List Node) := do
  let t ← peek
  if t.kind == .name then return [← namedMember go t (← ahead 1) (← ahead 2)]
  else
    reportHere .expectedObjectMember
    pure []

/-- The members of an object, in braces. -/
def readInitializer : Parser Node := do
  let start ← start
  discard (expectPunct "\x7b")
  let members ← collectUntil (·.isPunct "\x7d") (everyRound (objectMember go))
  discard (expectPunct "\x7d")
  finish (.objectInitializer members) start

end

end QmlCodeModel.Grammar
