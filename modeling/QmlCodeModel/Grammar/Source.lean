import QmlCodeModel.Grammar.Member

/-! Whole sources: QML documents, programs and single expressions. Syntax errors never stop the
reading; every source that is read at all has a tree. -/
namespace QmlCodeModel

/-- What a source is read as, and what the root of its tree is. -/
inductive SourceForm
  | qml | program | expression
  deriving DecidableEq, Repr

/-- A source that has been read. -/
structure Parse where
  root : Node
  form : SourceForm
  /-- All nodes, also those outside the tree; each stands at its own number. -/
  nodes : Array Node
  comments : List Span
  /-- The errors, by offset. -/
  diagnostics : List Diagnostic
  directives : List Directive

namespace Grammar

/-- What reads a goal, given a way to read the goals inside it. -/
def readGoal (go : Reader) : Goal → Parser Node
  | .statement => readStatement go
  | .assignment => readAssignment go
  | .unary => readUnary go
  | .newExpression => readNew go
  | .primary => readPrimary go
  | .initializer => readInitializer go
  | .binary above => readBinary go above

/-- Reads goals inside one another up to so many levels. -/
def readWithin : Nat → Reader
  | 0 => fun _ => stay
  | levels + 1 => readGoal (readWithin levels)

/-- The name that qualifies what an import brings in. -/
def importQualifier : Parser (Option Ident) := do
  if ← eatName "as" then identifier else pure none

/-- What a document imports: a path in quotes, or a module. -/
def importTarget : Parser ImportTarget := do
  if (← peek).kind == .string then return .file (Token.stringValue (← bump))
  else return .module (← qualifiedName)

/-- The version of an imported module, on the same line. -/
def importVersion : Parser (Option String) := do
  let t ← peek
  if t.kind == .number && !t.newlineBefore then
    discard bump
    pure (some t.text)
  else pure none

/-- What an import says to those who follow the directives of a source. -/
def importDirective (target : ImportTarget) (version qualifier : Option String)
    (place : LineColumn) : Directive :=
  match target with
  | .file path => .importFile path qualifier place
  | .module uri => .importModule uri.joined version qualifier place

def importHeader : Parser Node := do
  let start ← start
  let place ← place start
  discard bump
  let target ← importTarget
  let version ← importVersion
  let qualifier ← importQualifier
  endStatement
  announce (importDirective target version (qualifier.map Ident.name) place)
  finish (.importing target version qualifier) start

def pragmaHeader : Parser Node := do
  let start ← start
  discard bump
  let name? ← identifier
  endStatement
  finish ((name?.map Kind.pragma).getD .error) start

/-- One of the headers of a document, if one comes next. -/
def header : Parser (Round Node) := do
  let t ← peek
  let next ← ahead 1
  if t.isName "import" && (next.kind == .name || next.kind == .string) then
    return ⟨[← importHeader], true⟩
  else if t.isName "pragma" && next.kind == .name then return ⟨[← pragmaHeader], true⟩
  else pure ⟨[], false⟩

/-- Leaves out all tokens to come. -/
def skipRest : Parser Unit :=
  modify fun s => { s with rest := [], taken := s.taken + s.rest.length }

/-- Leaves out all tokens to come, if there are any, with an error. -/
def refuseRest (fault : GrammarFault) : Parser Unit := do
  if ← atEnd then pure ()
  else
    reportHere fault
    skipRest

/-- The root object of a document. Whatever else stands there is an error, and left out. -/
def rootObject (go : Reader) : Parser (List Node) := do
  if startsObject false (← upcoming) then
    let node ← objectDefinition go
    refuseRest .tokenAfterRootObject
    pure [node]
  else
    reportHere .expectedRootObject
    skipRest
    pure []

def readQml (go : Reader) (whole : Span) : Parser Node := do
  let headers ← collect header
  let members ← rootObject go
  make whole (.document headers members)

def directiveQualifier : Parser (Option String) := do
  if ← eatName "as" then return (← identifier).map Ident.name
  else
    reportHere (.expected "as")
    pure none

def moduleVersion : Parser (Option String) := do
  if (← peek).kind == .number then return some (← bump).text
  else
    reportHere .expectedModuleVersion
    pure none

/-- A directive of a program, after its dot and its word. -/
def directiveAfter (word : Token) (place : LineColumn) : Parser Unit := do
  if word.text == "pragma" then
    if ← eatName "library" then announce .libraryPragma else reportHere (.expected "library")
  else if (← peek).kind == .string then
    let path := Token.stringValue (← bump)
    let qualifier ← directiveQualifier
    announce (.importFile path qualifier place)
  else
    let uri ← qualifiedName
    let version ← moduleVersion
    let qualifier ← directiveQualifier
    announce (.importModule uri.joined version qualifier place)

/-- A directive at the start of a program, if one comes next. -/
def directive : Parser (Round Unit) := do
  let t ← peek
  let next ← ahead 1
  if t.isPunct "." && ((← taken) == 0 || t.newlineBefore) &&
      (next.isName "pragma" || next.isName "import") then
    let place ← place t.span.start
    discard bump
    let word ← bump
    directiveAfter word place
    discard (eatPunct ";")
    pure ⟨[()], true⟩
  else pure ⟨[], false⟩

def readProgram (go : Reader) (whole : Span) : Parser Node := do
  discard (collect directive)
  let elements ← statementsUntil go (·.kind == .eof)
  make whole (.program elements)

/-- An expression, unless the source has no token. -/
def expressionOrError (go : Reader) : Parser Node := do
  if ← atEnd then missingPrimary .expectedExpression else expression go

def readSingleExpression (go : Reader) : Parser Node := do
  let root ← expressionOrError go
  let ended ← atEnd
  reportIf (!ended) .tokenAfterExpression
  pure root

def readSource (go : Reader) (whole : Span) : SourceForm → Parser Node
  | .qml => readQml go whole
  | .program => readProgram go whole
  | .expression => readSingleExpression go

/-- The state before the first token. The faults of the text itself are the first errors. -/
def initialState (text : List Char) (stream : TokenStream) : State :=
  let tokens := stream.tokens.toList
  let blank : State := {
    rest := tokens.dropLast
    eof := tokens.getLastD default
    lines := LineIndex.ofText text }
  stream.faults.foldl (fun s (span, fault) => s.report span.start (.lexical fault)) blank

end Grammar

/-- The root of a source with the state after the last token, or the state in which the grammar would
read the source for ever. -/
def Grammar.reading (form : SourceForm) (text : List Char) : Except State (Node × State) :=
  let state := initialState text (tokenize text)
  readSource (readWithin (maxNesting + state.rest.length + 1)) ⟨0, byteWidth text⟩ form state

/-- Reads a source. There is no answer for a source that the grammar would read for ever. -/
def parse? (form : SourceForm) (source : String) : Option Parse := do
  let text := source.toList
  let stream := tokenize text
  let (root, final) ← (Grammar.reading form text).toOption
  return {
    root, form
    nodes := final.nodes
    comments := stream.comments.toList
    diagnostics := Diagnostic.sort final.diagnostics.toList
    directives := final.directives.toList }

namespace Parse

/-- No error was found. -/
def success (p : Parse) : Bool := !p.diagnostics.any (·.severity == .error)

/-- The imports of the source, for a document in a directory. -/
def imports (p : Parse) (directory : Option Path) : List Import :=
  p.directives.filterMap (·.toImport? directory)

/-- The source is a script library. -/
def isLibrary (p : Parse) : Bool := p.directives.contains .libraryPragma

def inComment (p : Parse) (offset : Nat) : Bool := p.comments.any (·.contains offset)

/-- The first object among the members of a document. -/
def rootObject? (p : Parse) : Option Node :=
  match p.root.kind with
  | .document _ members => members.find? (·.kind.isQmlObject)
  | _ => none

end Parse
end QmlCodeModel
