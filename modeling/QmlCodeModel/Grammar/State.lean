import QmlCodeModel.Diagnostic
import QmlCodeModel.Grammar.Fault
import QmlCodeModel.Grammar.Word
import QmlCodeModel.Import.Directive
import QmlCodeModel.Token.StringValue
import QmlCodeModel.Token.Stream
import QmlCodeModel.Tree.Node

/-! What the grammar works on: the tokens to come, and what has been made of those before. -/
namespace QmlCodeModel

/-- The deepest nesting of statements, expressions and initializers that is read. -/
def maxNesting : Nat := 128

namespace Grammar

structure State where
  /-- The tokens to come, without the last one. -/
  rest : List Token
  /-- The token at the end of the source. -/
  eof : Token
  lines : LineIndex
  /-- How many tokens have been taken. -/
  taken : Nat := 0
  /-- Where the last token taken ends. -/
  previousStop : Nat := 0
  /-- All nodes made so far; each stands at its own number. -/
  nodes : Array Node := #[]
  diagnostics : Array Diagnostic := #[]
  directives : Array Directive := #[]
  /-- The word `in` is an operator here. -/
  allowIn : Bool := true
  inAsync : Bool := false
  inGenerator : Bool := false
  depth : Nat := 0

/-- A part of the grammar. One that would go on for ever has no answer, only the state that it stays
in. -/
abbrev Parser := StateT State (Except State)

namespace State

def peek (s : State) : Token := s.rest.headD s.eof

/-- Where the next token starts. -/
def front (s : State) : Nat := s.peek.span.start

/-- From an offset to the end of the last token taken; empty if that ends before it. -/
def spanFrom (s : State) (start : Nat) : Span := ⟨start, max s.previousStop start⟩

/-- The token after `n` others. -/
def ahead (s : State) (n : Nat) : Token := (s.rest.drop n).headD s.eof

/-- Reports an error, unless the last message is an error at the same offset. -/
def report (s : State) (offset : Nat) (fault : GrammarFault) : State :=
  if s.diagnostics.back?.any fun d => d.offset == offset && d.severity == .error then s
  else
    { s with
      diagnostics := s.diagnostics.push ⟨.error, offset, s.lines.positionAt offset, fault.message⟩ }

/-- Makes a node with the next number. -/
def make (s : State) (span : Span) (kind : Kind Node) : Node × State :=
  let node := Node.mk s.nodes.size span kind
  (node, { s with nodes := s.nodes.push node })

/-- Takes the next token. The end of the source stays where it is. -/
def advance (s : State) : State :=
  match s.rest with
  | [] => s
  | t :: rest => { s with rest, taken := s.taken + 1, previousStop := t.span.stop }

end State

/-- Goes on for ever. -/
def stay {α : Type} : Parser α := fun s => .error s

def peek : Parser Token := fun s => .ok (s.peek, s)

def ahead (n : Nat) : Parser Token := fun s => .ok (s.ahead n, s)

/-- The tokens to come. -/
def upcoming : Parser (List Token) := fun s => .ok (s.rest, s)

/-- Takes the next token and answers it. -/
def bump : Parser Token := fun s => .ok (s.peek, s.advance)

def start : Parser Nat := fun s => .ok (s.front, s)

def taken : Parser Nat := fun s => .ok (s.taken, s)

def atPunct (text : String) : Parser Bool := fun s => .ok (s.peek.isPunct text, s)

def atName (text : String) : Parser Bool := fun s => .ok (s.peek.isName text, s)

def atEnd : Parser Bool := fun s => .ok (s.peek.kind == .eof, s)

def report (offset : Nat) (fault : GrammarFault) : Parser Unit :=
  fun s => .ok ((), s.report offset fault)

/-- Reports an error at the next token. -/
def reportHere (fault : GrammarFault) : Parser Unit :=
  fun s => .ok ((), s.report s.front fault)

def make (span : Span) (kind : Kind Node) : Parser Node := fun s => .ok (s.make span kind)

/-- Makes a node that ends with the last token taken, or is empty if that ends before it starts. -/
def finish (kind : Kind Node) (start : Nat) : Parser Node :=
  fun s => .ok (s.make (s.spanFrom start) kind)

/-- Makes an empty node, at the next token, for input that could not be read. -/
def errorNode : Parser Node :=
  fun s => .ok (s.make ⟨s.front, s.front⟩ .error)

def announce (directive : Directive) : Parser Unit :=
  fun s => .ok ((), { s with directives := s.directives.push directive })

def place (offset : Nat) : Parser LineColumn := fun s => .ok (s.lines.positionAt offset, s)

/-- Reports an error at the next token if something is wrong. -/
def reportIf (wrong : Bool) (fault : GrammarFault) : Parser Unit :=
  if wrong then reportHere fault else pure ()

/-- Takes the next token if this is asked for. -/
def skipIf (asked : Bool) : Parser Unit := if asked then discard bump else pure ()

/-- Takes the next token if it passes a test, and says whether it did. -/
def eat (test : Token → Bool) : Parser Bool := do
  let t ← peek
  if test t then
    discard bump
    pure true
  else pure false

def eatPunct (text : String) : Parser Bool := eat (·.isPunct text)

def eatName (text : String) : Parser Bool := eat (·.isName text)

/-- Takes what is expected, reports an error if it is not there, and says whether it was. -/
def expect (test : Token → Bool) (text : String) : Parser Bool := do
  if ← eat test then pure true
  else
    reportHere (.expected text)
    pure false

def expectPunct (text : String) : Parser Bool := expect (·.isPunct text) text

def expectName (text : String) : Parser Bool := expect (·.isName text) text

/-- Takes the semicolon at the end of a statement. Before a closing brace, at the end and on a new
line it may be missing. -/
def endStatement : Parser Unit := do
  if ← eatPunct ";" then pure ()
  else
    let t ← peek
    if t.isPunct "\x7d" || t.kind == .eof || t.newlineBefore then pure ()
    else reportHere (.expected ";")

/-- Reads a part if a test says that it is there. -/
def optionally {α : Type} (present : Parser Bool) (p : Parser α) : Parser (Option α) := do
  if ← present then some <$> p else pure none

/-- Makes the node of a statement that ends with the last token taken, and takes its semicolon. -/
def finishStatement (kind : Kind Node) (start : Nat) : Parser Node := do
  let span := (← get).spanFrom start
  endStatement
  make span kind

/-- Reads where the word `in` is an operator or is not. -/
def withIn {α : Type} (allowed : Bool) (p : Parser α) : Parser α := do
  let saved := (← get).allowIn
  modify fun s => { s with allowIn := allowed }
  let result ← p
  modify fun s => { s with allowIn := saved }
  pure result

/-- Reads in the surroundings of a function. -/
def inFunction {α : Type} (async generator : Bool) (p : Parser α) : Parser α := do
  let saved ← get
  modify fun s => { s with inAsync := async, inGenerator := generator }
  let result ← p
  modify fun s => { s with inAsync := saved.inAsync, inGenerator := saved.inGenerator }
  pure result

def identOf (t : Token) : Ident := ⟨t.text, t.span⟩

/-- Any name, reserved or not. -/
def identifier : Parser (Option Ident) := do
  if (← peek).kind == .name then return some (identOf (← bump))
  else
    reportHere .expectedIdentifier
    pure none

/-- A name that may be bound. -/
def bindingIdentifier : Parser (Option Ident) := do
  if (← peek).isBindable then identifier
  else
    reportHere .expectedIdentifier
    pure none

end Grammar
end QmlCodeModel
