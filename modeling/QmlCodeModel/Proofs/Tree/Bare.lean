import Mathlib.Tactic.Common
import QmlCodeModel.Import.Directive
import QmlCodeModel.Token.Basic
import QmlCodeModel.Tree.Node
import QmlCodeModel.Tree.Size

/-! What is left of tokens, nodes and directives without the places where they stand in a source. -/
namespace QmlCodeModel

def Token.bare (t : Token) : Token := { t with span := {} }

def Directive.bare : Directive → Directive
  | .libraryPragma => .libraryPragma
  | .importFile path qualifier _ => .importFile path qualifier ⟨0, 0⟩
  | .importModule uri version qualifier _ => .importModule uri version qualifier ⟨0, 0⟩

def Ident.bare (i : Ident) : Ident := { i with span := {} }

def QualifiedName.bare (q : QualifiedName) : QualifiedName := ⟨q.parts.map Ident.bare⟩

lemma QualifiedName.joined_bare (q : QualifiedName) : q.bare.joined = q.joined := by
  have hnames : q.bare.names = q.names := by simp [bare,names,Ident.bare]
  rw [joined,joined,hnames]

def ImportTarget.bare : ImportTarget → ImportTarget
  | .module uri => .module uri.bare
  | .file path => .file path

def SignalParameter.bare (p : SignalParameter) : SignalParameter :=
  ⟨p.name.bare, p.typeName.map QualifiedName.bare⟩

def EnumMember.bare (m : EnumMember) : EnumMember := { m with name := m.name.bare }

def BindingTarget.bare : BindingTarget Node → BindingTarget Nat
  | .name ident => .name ident.bare
  | .pattern literal => .pattern literal.id

def FormalParameter.bare (p : FormalParameter Node) : FormalParameter Nat :=
  { target := p.target.bare, default := p.default.map Node.id, rest := p.rest }

def FunctionParts.bare (f : FunctionParts Node) : FunctionParts Nat :=
  { name := f.name.map Ident.bare
    params := f.params.map FormalParameter.bare
    body := f.body.id
    arrow := f.arrow
    async := f.async
    generator := f.generator }

def ClassParts.bare (c : ClassParts Node) : ClassParts Nat :=
  { name := c.name.map Ident.bare
    heritage := c.heritage.map Node.id
    elements := c.elements.map Node.id }

def PropertyKey.bare : PropertyKey Node → PropertyKey Nat
  | .name text => .name text
  | .string value => .string value
  | .number raw => .number raw
  | .computed expression => .computed expression.id

def PublicMember.bare (m : PublicMember Node) : PublicMember Nat :=
  { kind := m.kind
    name := m.name.bare
    memberType := m.memberType.map QualifiedName.bare
    typeModifier := m.typeModifier.map Ident.bare
    isDefault := m.isDefault
    isReadonly := m.isReadonly
    isRequired := m.isRequired
    parameters := m.parameters.map SignalParameter.bare
    statement := m.statement.map Node.id
    binding := m.binding.map Node.id }

/-- A layer with the numbers of the nodes below it, and without places. -/
@[simp]
def Kind.bare : Kind Node → Kind Nat
  | .document headers members => .document (headers.map Node.id) (members.map Node.id)
  | .pragma name => .pragma name.bare
  | .importing target version qualifier =>
    .importing target.bare version (qualifier.map Ident.bare)
  | .objectDefinition typeName init => .objectDefinition typeName.bare init.id
  | .objectInitializer members => .objectInitializer (members.map Node.id)
  | .objectBinding name typeName init on => .objectBinding name.bare typeName.bare init.id on
  | .scriptBinding name statement => .scriptBinding name.bare statement.id
  | .arrayBinding name members _ => .arrayBinding name.bare (members.map Node.id) {}
  | .publicMember declared => .publicMember declared.bare
  | .sourceElement element => .sourceElement element.id
  | .enumDeclaration name members => .enumDeclaration name.bare (members.map EnumMember.bare)
  | .program elements => .program (elements.map Node.id)
  | .block statements => .block (statements.map Node.id)
  | .variableStatement kind declarations => .variableStatement kind (declarations.map Node.id)
  | .variableDeclaration target init => .variableDeclaration target.bare (init.map Node.id)
  | .empty => .empty
  | .expressionStatement expression => .expressionStatement expression.id
  | .if test consequent alternate => .if test.id consequent.id (alternate.map Node.id)
  | .doWhile body test => .doWhile body.id test.id
  | .while test body => .while test.id body.id
  | .for init test step body => .for (init.map Node.id) (test.map Node.id) (step.map Node.id) body.id
  | .forEach kind left right body => .forEach kind left.id right.id body.id
  | .continue label => .continue (label.map Ident.bare)
  | .break label => .break (label.map Ident.bare)
  | .return argument => .return (argument.map Node.id)
  | .switch discriminant cases => .switch discriminant.id (cases.map Node.id)
  | .case test body => .case (test.map Node.id) (body.map Node.id)
  | .labelled label body => .labelled label.bare body.id
  | .throw argument => .throw argument.id
  | .try body param handler finalizer =>
    .try body.id (param.map BindingTarget.bare) (handler.map Node.id) (finalizer.map Node.id)
  | .debugger => .debugger
  | .functionDeclaration parts => .functionDeclaration parts.bare
  | .classDeclaration parts => .classDeclaration parts.bare
  | .identifier name => .identifier name
  | .this => .this
  | .super => .super
  | .null => .null
  | .boolean value => .boolean value
  | .number raw => .number raw
  | .string value => .string value
  | .template raw => .template raw
  | .regExp raw => .regExp raw
  | .array elements => .array (elements.map (Option.map Node.id))
  | .object properties => .object (properties.map Node.id)
  | .property key value kind isStatic => .property key.bare (value.map Node.id) kind isStatic
  | .spread argument => .spread argument.id
  | .functionExpression parts => .functionExpression parts.bare
  | .classExpression parts => .classExpression parts.bare
  | .member owner name optional => .member owner.id name.bare optional
  | .index owner key optional => .index owner.id key.id optional
  | .call callee arguments optional => .call callee.id (arguments.map Node.id) optional
  | .new callee arguments => .new callee.id (arguments.map Node.id)
  | .taggedTemplate tag quasi => .taggedTemplate tag.id quasi.id
  | .unary operator argument => .unary operator argument.id
  | .update operator before argument => .update operator before argument.id
  | .binary operator left right => .binary operator left.id right.id
  | .assign operator target value => .assign operator target.id value.id
  | .conditional test consequent alternate => .conditional test.id consequent.id alternate.id
  | .sequence expressions => .sequence (expressions.map Node.id)
  | .yield argument delegate => .yield (argument.map Node.id) delegate
  | .await argument => .await argument.id
  | .error => .error

/-- A node as it is stored: its number, and its layer over the numbers of its children. -/
def Node.bare (n : Node) : Nat × Kind Nat := (n.id, n.kind.bare)

/-! Trees without places and numbers. Two readings of the same tokens at different places, or after other
nodes, make trees of one shape. -/

section

variable {α β γ : Type}

/-! Parts of layers over other things than nodes. -/

def BindingTarget.over (f : α → β) : BindingTarget α → BindingTarget β
  | .name ident => .name ident.bare
  | .pattern literal => .pattern (f literal)

def FormalParameter.over (f : α → β) (p : FormalParameter α) : FormalParameter β :=
  { target := p.target.over f, default := p.default.map f, rest := p.rest }

def FunctionParts.over (f : α → β) (parts : FunctionParts α) : FunctionParts β :=
  { name := parts.name.map Ident.bare
    params := parts.params.map (FormalParameter.over f)
    body := f parts.body
    arrow := parts.arrow
    async := parts.async
    generator := parts.generator }

def ClassParts.over (f : α → β) (parts : ClassParts α) : ClassParts β :=
  { name := parts.name.map Ident.bare
    heritage := parts.heritage.map f
    elements := parts.elements.map f }

def PropertyKey.over (f : α → β) : PropertyKey α → PropertyKey β
  | .name text => .name text
  | .string value => .string value
  | .number raw => .number raw
  | .computed expression => .computed (f expression)

def PublicMember.over (f : α → β) (m : PublicMember α) : PublicMember β :=
  { kind := m.kind
    name := m.name.bare
    memberType := m.memberType.map QualifiedName.bare
    typeModifier := m.typeModifier.map Ident.bare
    isDefault := m.isDefault
    isReadonly := m.isReadonly
    isRequired := m.isRequired
    parameters := m.parameters.map SignalParameter.bare
    statement := m.statement.map f
    binding := m.binding.map f }

/-- A layer without places, over what each thing below it is taken to. -/
@[simp]
def Kind.over (f : α → β) : Kind α → Kind β
  | .document headers members => .document (headers.map f) (members.map f)
  | .pragma name => .pragma name.bare
  | .importing target version qualifier => .importing target.bare version (qualifier.map Ident.bare)
  | .objectDefinition typeName init => .objectDefinition typeName.bare (f init)
  | .objectInitializer members => .objectInitializer (members.map f)
  | .objectBinding name typeName init on => .objectBinding name.bare typeName.bare (f init) on
  | .scriptBinding name statement => .scriptBinding name.bare (f statement)
  | .arrayBinding name members _ => .arrayBinding name.bare (members.map f) {}
  | .publicMember declared => .publicMember (declared.over f)
  | .sourceElement element => .sourceElement (f element)
  | .enumDeclaration name members => .enumDeclaration name.bare (members.map EnumMember.bare)
  | .program elements => .program (elements.map f)
  | .block statements => .block (statements.map f)
  | .variableStatement kind declarations => .variableStatement kind (declarations.map f)
  | .variableDeclaration target init => .variableDeclaration (target.over f) (init.map f)
  | .empty => .empty
  | .expressionStatement expression => .expressionStatement (f expression)
  | .if test consequent alternate => .if (f test) (f consequent) (alternate.map f)
  | .doWhile body test => .doWhile (f body) (f test)
  | .while test body => .while (f test) (f body)
  | .for init test step body => .for (init.map f) (test.map f) (step.map f) (f body)
  | .forEach kind left right body => .forEach kind (f left) (f right) (f body)
  | .continue label => .continue (label.map Ident.bare)
  | .break label => .break (label.map Ident.bare)
  | .return argument => .return (argument.map f)
  | .switch discriminant cases => .switch (f discriminant) (cases.map f)
  | .case test body => .case (test.map f) (body.map f)
  | .labelled label body => .labelled label.bare (f body)
  | .throw argument => .throw (f argument)
  | .try body param handler finalizer =>
    .try (f body) (param.map (BindingTarget.over f)) (handler.map f) (finalizer.map f)
  | .debugger => .debugger
  | .functionDeclaration parts => .functionDeclaration (parts.over f)
  | .classDeclaration parts => .classDeclaration (parts.over f)
  | .identifier name => .identifier name
  | .this => .this
  | .super => .super
  | .null => .null
  | .boolean value => .boolean value
  | .number raw => .number raw
  | .string value => .string value
  | .template raw => .template raw
  | .regExp raw => .regExp raw
  | .array elements => .array (elements.map (Option.map f))
  | .object properties => .object (properties.map f)
  | .property key value kind isStatic => .property (key.over f) (value.map f) kind isStatic
  | .spread argument => .spread (f argument)
  | .functionExpression parts => .functionExpression (parts.over f)
  | .classExpression parts => .classExpression (parts.over f)
  | .member owner name optional => .member (f owner) name.bare optional
  | .index owner key optional => .index (f owner) (f key) optional
  | .call callee arguments optional => .call (f callee) (arguments.map f) optional
  | .new callee arguments => .new (f callee) (arguments.map f)
  | .taggedTemplate tag quasi => .taggedTemplate (f tag) (f quasi)
  | .unary operator argument => .unary operator (f argument)
  | .update operator before argument => .update operator before (f argument)
  | .binary operator left right => .binary operator (f left) (f right)
  | .assign operator target value => .assign operator (f target) (f value)
  | .conditional test consequent alternate => .conditional (f test) (f consequent) (f alternate)
  | .sequence expressions => .sequence (expressions.map f)
  | .yield argument delegate => .yield (argument.map f) delegate
  | .await argument => .await (f argument)
  | .error => .error

/-! Two steps at once, and what is below. -/

lemma Ident.bare_bare (i : Ident) : i.bare.bare = i.bare := rfl

lemma QualifiedName.bare_bare (q : QualifiedName) : q.bare.bare = q.bare := by
  simp [bare,Ident.bare]

lemma ImportTarget.bare_bare (t : ImportTarget) : t.bare.bare = t.bare := by
  cases t <;> simp [bare,QualifiedName.bare_bare]

lemma BindingTarget.over_over (f : α → β) (g : β → γ) (t : BindingTarget α) :
    (t.over f).over g = t.over (g ∘ f) := by
  cases t <;> rfl

lemma FormalParameter.over_over (f : α → β) (g : β → γ) (p : FormalParameter α) :
    (p.over f).over g = p.over (g ∘ f) := by
  simp [FormalParameter.over,BindingTarget.over_over]

lemma FunctionParts.over_over (f : α → β) (g : β → γ) (parts : FunctionParts α) :
    (parts.over f).over g = parts.over (g ∘ f) := by
  simp [FunctionParts.over,FormalParameter.over_over,Function.comp_def,Ident.bare_bare]

lemma ClassParts.over_over (f : α → β) (g : β → γ) (parts : ClassParts α) :
    (parts.over f).over g = parts.over (g ∘ f) := by
  simp [ClassParts.over,Function.comp_def,Ident.bare_bare]

lemma PropertyKey.over_over (f : α → β) (g : β → γ) (key : PropertyKey α) :
    (key.over f).over g = key.over (g ∘ f) := by
  cases key <;> rfl

lemma PublicMember.over_over (f : α → β) (g : β → γ) (m : PublicMember α) :
    (m.over f).over g = m.over (g ∘ f) := by
  simp [PublicMember.over,Function.comp_def,Ident.bare_bare,QualifiedName.bare_bare,SignalParameter.bare]

lemma Kind.over_over (f : α → β) (g : β → γ) (kind : Kind α) :
    (kind.over f).over g = kind.over (g ∘ f) := by
  cases kind <;> simp [Function.comp_def,Ident.bare_bare,QualifiedName.bare_bare,ImportTarget.bare_bare,
    EnumMember.bare,BindingTarget.over_over,FunctionParts.over_over,ClassParts.over_over,
    PropertyKey.over_over,PublicMember.over_over]

lemma BindingTarget.children_over (f : α → β) (t : BindingTarget α) :
    (t.over f).children = t.children.map f := by
  cases t <;> rfl

lemma FormalParameter.children_over (f : α → β) (p : FormalParameter α) :
    (p.over f).children = p.children.map f := by
  obtain ⟨target,default,rest⟩ := p
  cases default <;> simp [children,FormalParameter.over,BindingTarget.children_over]

lemma FunctionParts.children_over (f : α → β) (parts : FunctionParts α) :
    (parts.over f).children = parts.children.map f := by
  simp [children,FunctionParts.over,List.flatMap_map,List.map_flatMap,FormalParameter.children_over]

lemma option_toList_map (f : α → β) (o : Option α) : (o.map f).toList = o.toList.map f := by
  cases o <;> rfl

lemma ClassParts.children_over (f : α → β) (parts : ClassParts α) :
    (parts.over f).children = parts.children.map f := by
  simp [children,ClassParts.over,option_toList_map]

lemma PropertyKey.children_over (f : α → β) (key : PropertyKey α) :
    (key.over f).children = key.children.map f := by
  cases key <;> rfl

lemma Kind.children_over (f : α → β) (kind : Kind α) : (kind.over f).children = kind.children.map f := by
  cases kind
  case «try» body param handler finalizer =>
    cases param <;> simp [children,option_toList_map,BindingTarget.children_over]
  all_goals simp [children,option_toList_map,BindingTarget.children_over,FunctionParts.children_over,
    ClassParts.children_over,PropertyKey.children_over,PublicMember.over,List.filterMap_map,
    List.map_filterMap]

end

/-- A tree without places and numbers: layers over nothing, and what is below each. -/
inductive Shape
  | mk (layer : Kind Unit) (below : List Shape)

/-- The tree of a node, without the places where it stands and the numbers of its nodes. -/
def Node.shape (n : Node) : Shape :=
  .mk (n.kind.over fun _ => ()) (n.children.attach.map fun ⟨c, _⟩ => c.shape)
termination_by sizeOf n
decreasing_by exact sizeOf_lt_of_mem_children ‹_›

lemma Node.shape_eq (n : Node) : n.shape = .mk (n.kind.over fun _ => ()) (n.children.map shape) := by
  rw [shape]
  simp

/-- The shape of a node is that of its layer over the shapes below it. -/
lemma Node.shape_congr {n n' : Node} (h : n.kind.over shape = n'.kind.over shape) : n.shape = n'.shape := by
  have hlayer := congrArg (Kind.over fun _ => ()) h
  have hbelow := congrArg Kind.children h
  rw [Kind.over_over,Kind.over_over] at hlayer
  rw [Kind.children_over,Kind.children_over] at hbelow
  rw [shape_eq,shape_eq]
  exact congrArg₂ Shape.mk hlayer hbelow

end QmlCodeModel
