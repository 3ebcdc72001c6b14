import QmlCodeModel.Tree.Walk

/-! Scopes of script names, and which scopes and names each node of a tree brings. -/
namespace QmlCodeModel

inductive ScopeKind
  | global | function | block
  deriving DecidableEq, Repr

inductive DeclarationKind
  | var | let | const | function | className | parameter | catchParameter | import
  deriving DecidableEq, Repr

structure Declaration where
  name : String
  kind : DeclarationKind
  /-- Where the name stands. -/
  span : Span
  /-- The number of the node that declares it. -/
  node : Nat
  deriving DecidableEq, Repr

structure Scope where
  kind : ScopeKind
  span : Span
  /-- The number of the scope around this one. -/
  parent : Option Nat
  declarations : List Declaration := []
  deriving DecidableEq, Repr

/-- The last declaration of a name in a scope. -/
def Scope.find? (s : Scope) (name : String) : Option Declaration :=
  s.declarations.reverse.find? (·.name == name)

/-- How far out a declaration reaches: to the scope around it, or to that of its function. -/
inductive Reach
  | scope | function
  deriving DecidableEq, Repr

/-- What a node does within a scope: it declares a name, or has a part that does the same in turn. -/
inductive Deed
  | declare (reach : Reach) (declaration : Declaration)
  | visit (part : Node)

/-- What a node does, in order: deeds in the scopes around it, and deeds in a new scope. -/
inductive Step
  | deed (deed : Deed)
  | scoped (kind : ScopeKind) (span : Span) (deeds : List Deed)

def Step.visit (part : Node) : Step := .deed (.visit part)

def Deed.names (reach : Reach) (kind : DeclarationKind) (node : Nat) (names : List Ident) :
    List Deed :=
  names.map fun ident => .declare reach ⟨ident.name, kind, ident.span, node⟩

namespace Node

/-- The statements of a block; any other node stands for itself. -/
def bodyParts (n : Node) : List Node :=
  match n.kind with
  | .block statements => statements
  | _ => [n]

/-- The statements of a block; any other node has none. -/
def blockParts (n : Node) : List Node :=
  match n.kind with
  | .block statements => statements
  | _ => []

/-- A function has a scope of its own for its parameters and its body. The name of a declaration goes
to the function around it, the name of an expression into its own scope. Of the patterns among the
parameters only the names count. -/
def functionSteps (n : Node) (f : FunctionParts Node) (isExpression : Bool) : List Step :=
  let name := Deed.names (if isExpression then .scope else .function) .function n.id f.name.toList
  let params := f.params.flatMap fun p =>
    Deed.names .scope .parameter n.id p.target.names ++ p.default.toList.map Deed.visit
  let body := f.body.bodyParts.map Deed.visit
  if isExpression then [.scoped .function n.span (name ++ params ++ body)]
  else name.map .deed ++ [.scoped .function n.span (params ++ body)]

/-- The names of one declaration of a statement, and then its parts. -/
def variableDeeds (kind : VariableKind) (declaration : Node) : List Deed :=
  let names := match declaration.kind with
    | .variableDeclaration target _ => target.names
    | _ => []
  let declared := match kind with
    | .var => Deed.names .function .var declaration.id names
    | .let => Deed.names .scope .let declaration.id names
    | .const => Deed.names .scope .const declaration.id names
  declared ++ declaration.children.map Deed.visit

/-- A handler has a scope for what `catch` binds and for its statements. -/
def handlerStep (n : Node) (param : Option (BindingTarget Node)) (handler : Node) : Step :=
  let names := (param.map BindingTarget.names).getD []
  .scoped .block handler.span
    (Deed.names .scope .catchParameter n.id names ++ handler.blockParts.map Deed.visit)

/-- What a node of a script does. -/
def scopeSteps (n : Node) : List Step :=
  match n.kind with
  | .functionDeclaration f => n.functionSteps f false
  | .functionExpression f => n.functionSteps f true
  | .classDeclaration c =>
    (Deed.names .scope .className n.id c.name.toList ++ n.children.map Deed.visit).map Step.deed
  | .variableStatement kind declarations =>
    (declarations.flatMap (variableDeeds kind)).map Step.deed
  | .block _ | .for _ _ _ _ | .forEach _ _ _ _ | .switch _ _ =>
    [.scoped .block n.span (n.children.map Deed.visit)]
  | .try body param handler finalizer =>
    Step.visit body ::
      (handler.toList.map (n.handlerStep param) ++ finalizer.toList.map Step.visit)
  | _ => n.children.map Step.visit

end Node

def Step.deeds : Step → List Deed
  | .deed d => [d]
  | .scoped _ _ deeds => deeds

end QmlCodeModel
