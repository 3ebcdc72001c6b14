import QmlCodeModel.Number.Double
import QmlCodeModel.Text.Span

/-! The tree of a parsed source. `Kind` is one layer of it, with a place of type `α` wherever a node
hangs below; `Node` closes the layers into a tree. Every node carries the number under which it was
made, so that two nodes of one tree can be told apart. -/
namespace QmlCodeModel

/-! Names: single identifiers and dotted names. -/

structure Ident where
  name : String
  span : Span
  deriving DecidableEq, Repr, Inhabited

/-- A name of parts joined by dots, such as `anchors.left`. -/
structure QualifiedName where
  parts : List Ident := []
  deriving DecidableEq, Repr, Inhabited

namespace QualifiedName

def names (q : QualifiedName) : List String := q.parts.map Ident.name

def joined (q : QualifiedName) : String := ".".intercalate q.names

/-- The span from the first part to the last; empty and at zero if there are no parts. -/
def span (q : QualifiedName) : Span :=
  match q.parts.head?, q.parts.getLast? with
  | some first, some last => first.span.cover last.span
  | _, _ => {}

def lastName? (q : QualifiedName) : Option String := q.parts.getLast?.map Ident.name

end QualifiedName

/-- What an import names. -/
inductive ImportTarget
  | module (uri : QualifiedName)
  | file (path : String)
  deriving DecidableEq, Repr

inductive MemberKind
  | property | signal
  deriving DecidableEq, Repr

structure SignalParameter where
  name : Ident
  typeName : Option QualifiedName
  deriving DecidableEq, Repr

structure EnumMember where
  name : Ident
  value : Option Double
  deriving DecidableEq, Repr

inductive VariableKind
  | var | let | const
  deriving DecidableEq, Repr

/-- What a declaration binds: one name, or the names inside a pattern. A pattern is kept as the
array or object literal that it reads as. -/
inductive BindingTarget (α : Type)
  | name (ident : Ident)
  | pattern (literal : α)
  deriving Repr

structure FormalParameter (α : Type) where
  target : BindingTarget α
  default : Option α
  rest : Bool
  deriving Repr

structure FunctionParts (α : Type) where
  name : Option Ident
  params : List (FormalParameter α)
  /-- A block, or the expression that an arrow function answers. -/
  body : α
  arrow : Bool
  async : Bool
  generator : Bool
  deriving Repr

structure ClassParts (α : Type) where
  name : Option Ident
  heritage : Option α
  elements : List α
  deriving Repr

inductive PropertyKey (α : Type)
  | name (text : String)
  | string (value : String)
  | number (raw : String)
  | computed (expression : α)
  deriving Repr

inductive PropertyKind
  | init | shorthand | method | getter | setter | spread
  deriving DecidableEq, Repr

inductive ForEachKind
  | in | of
  deriving DecidableEq, Repr

/-- A declaration of a property or a signal. -/
structure PublicMember (α : Type) where
  kind : MemberKind
  name : Ident
  memberType : Option QualifiedName := none
  typeModifier : Option Ident := none
  isDefault : Bool := false
  isReadonly : Bool := false
  isRequired : Bool := false
  parameters : List SignalParameter := []
  /-- The script that gives the first value. -/
  statement : Option α := none
  /-- The object or array of objects that is the first value. -/
  binding : Option α := none
  deriving Repr

/-- One layer of a tree. -/
inductive Kind (α : Type)
  -- documents of objects
  | document (headers members : List α)
  | pragma (name : Ident)
  | importing (target : ImportTarget) (version : Option String) (qualifier : Option Ident)
  | objectDefinition (typeName : QualifiedName) (initializer : α)
  | objectInitializer (members : List α)
  | objectBinding (name typeName : QualifiedName) (initializer : α) (on : Bool)
  | scriptBinding (name : QualifiedName) (statement : α)
  | arrayBinding (name : QualifiedName) (members : List α) (brackets : Span)
  | publicMember (member : PublicMember α)
  | sourceElement (element : α)
  | enumDeclaration (name : Ident) (members : List EnumMember)
  -- statements
  | program (elements : List α)
  | block (statements : List α)
  | variableStatement (kind : VariableKind) (declarations : List α)
  | variableDeclaration (target : BindingTarget α) (init : Option α)
  | empty
  | expressionStatement (expression : α)
  | if (test consequent : α) (alternate : Option α)
  | doWhile (body test : α)
  | while (test body : α)
  | for (init test update : Option α) (body : α)
  | forEach (kind : ForEachKind) (left right body : α)
  | continue (label : Option Ident)
  | break (label : Option Ident)
  | return (argument : Option α)
  | switch (discriminant : α) (cases : List α)
  | case (test : Option α) (body : List α)
  | labelled (label : Ident) (body : α)
  | throw (argument : α)
  | try (block : α) (param : Option (BindingTarget α)) (handler finalizer : Option α)
  | debugger
  | functionDeclaration (parts : FunctionParts α)
  | classDeclaration (parts : ClassParts α)
  -- expressions
  | identifier (name : String)
  | this
  | super
  | null
  | boolean (value : Bool)
  | number (raw : String)
  | string (value : String)
  | template (raw : String)
  | regExp (raw : String)
  | array (elements : List (Option α))
  | object (properties : List α)
  | property (key : PropertyKey α) (value : Option α) (kind : PropertyKind) (isStatic : Bool)
  | spread (argument : α)
  | functionExpression (parts : FunctionParts α)
  | classExpression (parts : ClassParts α)
  | member (object : α) (property : Ident) (optional : Bool)
  | index (object index : α) (optional : Bool)
  | call (callee : α) (arguments : List α) (optional : Bool)
  | new (callee : α) (arguments : List α)
  | taggedTemplate (tag quasi : α)
  | unary (operator : String) (argument : α)
  | update (operator : String) (before : Bool) (argument : α)
  | binary (operator : String) (left right : α)
  | assign (operator : String) (target value : α)
  | conditional (test consequent alternate : α)
  | sequence (expressions : List α)
  | yield (argument : Option α) (delegate : Bool)
  | await (argument : α)
  /-- Stands for input that could not be read. -/
  | error
  deriving Repr

def BindingTarget.children {α : Type} : BindingTarget α → List α
  | .name _ => []
  | .pattern literal => [literal]

def FormalParameter.children {α : Type} (p : FormalParameter α) : List α :=
  p.target.children ++ p.default.toList

def FunctionParts.children {α : Type} (f : FunctionParts α) : List α :=
  f.params.flatMap FormalParameter.children ++ [f.body]

def ClassParts.children {α : Type} (c : ClassParts α) : List α :=
  c.heritage.toList ++ c.elements

def PropertyKey.children {α : Type} : PropertyKey α → List α
  | .computed expression => [expression]
  | _ => []

namespace Kind

/-- What hangs directly below a layer, in the order of the source. -/
def children {α : Type} : Kind α → List α
  | .document headers members => headers ++ members
  | .objectDefinition _ initializer => [initializer]
  | .objectInitializer members => members
  | .objectBinding _ _ initializer _ => [initializer]
  | .scriptBinding _ statement => [statement]
  | .arrayBinding _ members _ => members
  | .publicMember declared => declared.statement.toList ++ declared.binding.toList
  | .sourceElement element => [element]
  | .program elements => elements
  | .block statements => statements
  | .variableStatement _ declarations => declarations
  | .variableDeclaration target init => target.children ++ init.toList
  | .expressionStatement expression => [expression]
  | .if test consequent alternate => test :: consequent :: alternate.toList
  | .doWhile body test => [body, test]
  | .while test body => [test, body]
  | .for init test step body => init.toList ++ test.toList ++ step.toList ++ [body]
  | .forEach _ left right body => [left, right, body]
  | .return argument => argument.toList
  | .switch discriminant cases => discriminant :: cases
  | .case test body => test.toList ++ body
  | .labelled _ body => [body]
  | .throw argument => [argument]
  | .try body param handler finalizer =>
    body :: ((param.map BindingTarget.children).getD [] ++ handler.toList ++ finalizer.toList)
  | .functionDeclaration parts | .functionExpression parts => parts.children
  | .classDeclaration parts | .classExpression parts => parts.children
  | .array elements => elements.filterMap id
  | .object properties => properties
  | .property key value _ _ => key.children ++ value.toList
  | .spread argument => [argument]
  | .member owner _ _ => [owner]
  | .index owner key _ => [owner, key]
  | .call callee arguments _ => callee :: arguments
  | .new callee arguments => callee :: arguments
  | .taggedTemplate tag quasi => [tag, quasi]
  | .unary _ argument => [argument]
  | .update _ _ argument => [argument]
  | .binary _ left right => [left, right]
  | .assign _ target value => [target, value]
  | .conditional test consequent alternate => [test, consequent, alternate]
  | .sequence expressions => expressions
  | .yield argument _ => argument.toList
  | .await argument => [argument]
  | .pragma _ | .importing _ _ _ | .enumDeclaration _ _ | .empty | .continue _ | .break _
  | .debugger | .identifier _ | .this | .super | .null | .boolean _ | .number _ | .string _
  | .template _ | .regExp _ | .error => []

/-- Layers that have a value. Spread arguments and properties are parts of such layers only. -/
def isExpression {α : Type} : Kind α → Bool
  | .identifier _ | .this | .super | .null | .boolean _ | .number _ | .string _ | .template _
  | .regExp _ | .array _ | .object _ | .functionExpression _ | .classExpression _ | .member _ _ _
  | .index _ _ _ | .call _ _ _ | .new _ _ | .taggedTemplate _ _ | .unary _ _ | .update _ _ _
  | .binary _ _ _ | .assign _ _ _ | .conditional _ _ _ | .sequence _ | .yield _ _ | .await _ => true
  | _ => false

/-- Definitions of objects and bindings of objects to properties. -/
def isQmlObject {α : Type} : Kind α → Bool
  | .objectDefinition _ _ | .objectBinding _ _ _ _ => true
  | _ => false

end Kind

inductive Node
  | mk (id : Nat) (span : Span) (kind : Kind Node)
  deriving Repr

namespace Node

/-- The number under which the node was made. -/
def id : Node → Nat
  | mk id _ _ => id

def span : Node → Span
  | mk _ span _ => span

def kind : Node → Kind Node
  | mk _ _ kind => kind

def children (n : Node) : List Node := n.kind.children

instance : Inhabited Node := ⟨mk 0 {} .error⟩

end Node
end QmlCodeModel
