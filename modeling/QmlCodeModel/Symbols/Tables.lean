import QmlCodeModel.Grammar.Source
import QmlCodeModel.Symbols.Object
import QmlCodeModel.Symbols.Scope

/-! The symbol tables of a tree: its objects, their ids, and the scopes of script names. -/
namespace QmlCodeModel

structure SymbolTables where
  objects : Array ObjectValue := #[]
  ids : IdEnvironment := {}
  scopes : Array Scope := #[]
  /-- What is wrong with ids, and at which offset, in the order found. -/
  faults : Array (Nat × IdFault) := #[]

/-- The scopes around a place, by number: the nearest one, and that of the nearest function. -/
structure Surroundings where
  scope : Nat := 0
  function : Nat := 0

def Surroundings.reach (c : Surroundings) : Reach → Nat
  | .scope => c.scope
  | .function => c.function

/-- One node lies at most two levels below another. -/
def Node.IsNear (n part : Node) : Prop :=
  part ∈ n.children ∨ ∃ c ∈ n.children, part ∈ c.children

theorem Node.IsNear.sizeOf_lt {n part : Node} (h : n.IsNear part) : sizeOf part < sizeOf n := by
  rcases h with h | ⟨c, hc, h⟩
  · exact sizeOf_lt_of_mem_children h
  · exact Nat.lt_trans (sizeOf_lt_of_mem_children h) (sizeOf_lt_of_mem_children hc)

namespace Node

theorem isNear_of_mem_bodyParts {n body part : Node} (hbody : body ∈ n.children)
    (h : part ∈ body.bodyParts) : n.IsNear part := by
  unfold bodyParts at h
  split at h
  · rename_i statements hk
    exact .inr ⟨body, hbody, by simpa [children, hk, Kind.children] using h⟩
  · exact .inl ((List.mem_singleton.mp h) ▸ hbody)

theorem isNear_of_mem_blockParts {n body part : Node} (hbody : body ∈ n.children)
    (h : part ∈ body.blockParts) : n.IsNear part := by
  unfold blockParts at h
  split at h
  · rename_i statements hk
    exact .inr ⟨body, hbody, by simpa [children, hk, Kind.children] using h⟩
  · simp at h

theorem visit_notMem_names {reach : Reach} {kind : DeclarationKind} {node : Nat}
    {names : List Ident} {part : Node} : .visit part ∉ Deed.names reach kind node names := by
  simp [Deed.names]

theorem isNear_of_functionSteps {n part : Node} {f : FunctionParts Node} {isExpression : Bool}
    (hf : n.children = f.children) {s : Step} (hs : s ∈ n.functionSteps f isExpression)
    (h : .visit part ∈ s.deeds) : n.IsNear part := by
  have hbody : f.body ∈ n.children := by simp [hf, FunctionParts.children]
  have hdefault : ∀ p ∈ f.params, part ∈ p.default → part ∈ n.children := by
    intro p hp hd
    simp only [hf, FunctionParts.children, List.mem_append, List.mem_flatMap]
    exact .inl ⟨p, hp, by simpa [FormalParameter.children] using .inr hd⟩
  have hinner : .visit part ∈ (f.params.flatMap fun p =>
      Deed.names .scope .parameter n.id p.target.names ++ p.default.toList.map .visit) ++
      f.body.bodyParts.map .visit → n.IsNear part := by
    simp only [List.mem_append, List.mem_flatMap, List.mem_map, visit_notMem_names, false_or,
      Option.mem_toList, Deed.visit.injEq, exists_eq_right]
    rintro (⟨p, hp, hd⟩ | hb)
    · exact .inl (hdefault p hp hd)
    · exact isNear_of_mem_bodyParts hbody hb
  cases isExpression with
  | true =>
    simp only [functionSteps, if_true, List.mem_singleton] at hs
    subst hs
    simp only [Step.deeds, List.append_assoc, List.mem_append, visit_notMem_names, false_or] at h
    exact hinner (by simpa only [List.mem_append] using h)
  | false =>
    simp only [functionSteps, Bool.false_eq_true, if_false, List.mem_append, List.mem_map,
      List.mem_singleton] at hs
    rcases hs with ⟨d, hd, rfl⟩ | rfl
    · simp only [Step.deeds, List.mem_singleton] at h
      exact absurd (h ▸ hd) visit_notMem_names
    · exact hinner h

theorem isNear_of_variableDeeds {n part declaration : Node} {kind : VariableKind}
    (hd : declaration ∈ n.children) (h : .visit part ∈ variableDeeds kind declaration) :
    n.IsNear part := by
  refine .inr ⟨declaration, hd, ?_⟩
  cases kind <;>
    simpa [variableDeeds, visit_notMem_names] using h

/-- What a node of a script visits lies at most two levels below it. -/
theorem isNear_of_mem_scopeSteps {n part : Node} {s : Step} (hs : s ∈ n.scopeSteps)
    (h : .visit part ∈ s.deeds) : n.IsNear part := by
  unfold scopeSteps at hs
  split at hs
  · rename_i f hk
    exact isNear_of_functionSteps (by simp [children, hk, Kind.children]) hs h
  · rename_i f hk
    exact isNear_of_functionSteps (by simp [children, hk, Kind.children]) hs h
  · simp only [List.mem_map, List.mem_append] at hs
    obtain ⟨d, hd, rfl⟩ := hs
    simp only [Step.deeds, List.mem_singleton] at h
    subst h
    simp only [visit_notMem_names, Deed.visit.injEq, exists_eq_right, false_or] at hd
    exact .inl hd
  · rename_i kind declarations hk
    simp only [List.mem_map, List.mem_flatMap] at hs
    obtain ⟨d, ⟨x, hx, hd⟩, rfl⟩ := hs
    simp only [Step.deeds, List.mem_singleton] at h
    subst h
    exact isNear_of_variableDeeds (by simpa [children, hk, Kind.children] using hx) hd
  all_goals try
    simp only [List.mem_singleton] at hs
    subst hs
    simp only [Step.deeds, List.mem_map, Deed.visit.injEq, exists_eq_right] at h
    exact .inl h
  · rename_i body param handler finalizer hk
    have hch : ∀ x, x = body ∨ x ∈ handler ∨ x ∈ finalizer → x ∈ n.children := by
      intro x hx
      simp only [children, hk, Kind.children, List.mem_cons, List.mem_append, Option.mem_toList]
      rcases hx with hx | hx | hx
      · exact .inl hx
      · exact .inr (.inl (.inr hx))
      · exact .inr (.inr hx)
    simp only [List.mem_cons, List.mem_append, List.mem_map, Option.mem_toList] at hs
    rcases hs with rfl | ⟨x, hx, rfl⟩ | ⟨x, hx, rfl⟩
    · simp only [Step.visit, Step.deeds, List.mem_singleton, Deed.visit.injEq] at h
      exact .inl (hch _ (.inl h))
    · simp only [handlerStep, Step.deeds, List.mem_append, visit_notMem_names, false_or,
        List.mem_map, Deed.visit.injEq, exists_eq_right] at h
      exact isNear_of_mem_blockParts (hch _ (.inr (.inl hx))) h
    · simp only [Step.visit, Step.deeds, List.mem_singleton, Deed.visit.injEq] at h
      exact .inl (hch _ (.inr (.inr (h ▸ hx))))
  · simp only [List.mem_map] at hs
    obtain ⟨x, hx, rfl⟩ := hs
    simp only [Step.visit, Step.deeds, List.mem_singleton, Deed.visit.injEq] at h
    exact .inl (h ▸ hx)

end Node

namespace SymbolTables

def declare (t : SymbolTables) (scope : Nat) (d : Declaration) : SymbolTables :=
  { t with
    scopes := t.scopes.modify scope fun s => { s with declarations := s.declarations ++ [d] } }

/-- Opens a scope inside another. -/
def openScope (t : SymbolTables) (kind : ScopeKind) (span : Span) (parent : Option Nat) :
    SymbolTables :=
  { t with scopes := t.scopes.push { kind, span, parent } }

/-- The surroundings inside a scope that is opened next. -/
def inside (t : SymbolTables) (c : Surroundings) : ScopeKind → Surroundings
  | .block => { c with scope := t.scopes.size }
  | _ => ⟨t.scopes.size, t.scopes.size⟩

/-- Enters what a node of a script and the nodes below it declare. -/
def script (c : Surroundings) (t : SymbolTables) (n : Node) : SymbolTables :=
  n.scopeSteps.attach.foldl (fun t ⟨step, _hstep⟩ =>
    match _hs : step with
    | .deed (.declare reach d) => t.declare (c.reach reach) d
    | .deed (.visit part) => t.script c part
    | .scoped kind span deeds =>
      let inner := t.inside c kind
      deeds.attach.foldl (fun t ⟨deed, _hdeed⟩ =>
        match _hd : deed with
        | .declare reach d => t.declare (inner.reach reach) d
        | .visit part => t.script inner part) (t.openScope kind span (some c.scope))) t
termination_by sizeOf n
decreasing_by
  · exact (Node.isNear_of_mem_scopeSteps _hstep (by simp [Step.deeds])).sizeOf_lt
  · exact (Node.isNear_of_mem_scopeSteps _hstep _hdeed).sizeOf_lt

/-- Enters what the script of a binding declares. It sees only the global scope. -/
def binding (t : SymbolTables) (statement : Node) : SymbolTables :=
  match statement.kind with
  | .block statements =>
    statements.foldl (script (t.inside {} .function))
      (t.openScope .function statement.span (some 0))
  | _ => script {} t statement

/-- Enters an object and answers its number. -/
def addObject (t : SymbolTables) (node : Nat) (typeName : String) (parent : Option Nat) :
    Nat × SymbolTables :=
  let number := t.objects.size
  let objects := t.objects.push { node, typeName, parent, grouped := startsLowercase typeName }
  let objects := match parent with
    | some p => objects.modify p fun o => { o with children := o.children ++ [number] }
    | none => objects
  (number, { t with objects })

/-- Enters a member of an object, if it is in one. -/
def addMember (t : SymbolTables) (object : Option Nat) (name : String) (kind : ObjectMemberKind)
    (node : Node) : SymbolTables :=
  match object with
  | some i =>
    { t with objects := t.objects.modify i fun o =>
        { o with members := o.members ++ [⟨name, kind, node.id, node.span⟩] } }
  | none => t

def report (t : SymbolTables) (offset : Nat) (fault : IdFault) : SymbolTables :=
  { t with faults := t.faults.push (offset, fault) }

/-- Gives an object a name. A capital and a name that is taken are reported, and change nothing. -/
def nameObject (t : SymbolTables) (object : Nat) (offset : Nat) (name : String) : SymbolTables :=
  let t := if startsUppercase name then t.report offset (.capital name) else t
  let t := if t.ids.contains name then t.report offset (.duplicate name) else t
  { t with
    ids := t.ids.insert name object
    objects := t.objects.modify object fun o => { o with id := some name } }

/-- The name that the script of an id is. -/
def plainName? (statement : Node) : Option String :=
  match statement.kind with
  | .expressionStatement inner =>
    match inner.kind with
    | .identifier name => some name
    | _ => none
  | _ => none

/-- Enters an id. It must be a plain name, and the object no group of bindings. -/
def bindId (t : SymbolTables) (object : Nat) (statement : Node) : SymbolTables :=
  let offset := statement.span.start
  match plainName? statement with
  | none => t.report offset .notPlain
  | some name =>
    if (t.objects[object]?.map ObjectValue.grouped).getD false then t.report offset .inGroup
    else t.nameObject object offset name

/-- Enters the qualifier of an import into the global scope. -/
def header (t : SymbolTables) (n : Node) : SymbolTables :=
  match n.kind with
  | .importing _ _ (some qualifier) =>
    t.declare 0 ⟨qualifier.name, .import, qualifier.span, n.id⟩
  | _ => t

/-- The members that a function or variables among the members of an object are. -/
def sourceMembers (element : Node) : List (String × ObjectMemberKind × Node) :=
  match element.kind with
  | .functionDeclaration f => f.name.toList.map fun name => (name.name, .function, element)
  | .variableStatement _ declarations =>
    declarations.flatMap fun declaration =>
      match declaration.kind with
      | .variableDeclaration target _ =>
        target.names.map fun name => (name.name, .variable, declaration)
      | _ => []
  | _ => []

/-- The kind of member that a declared property or signal is. -/
def declaredKind (m : PublicMember Node) : ObjectMemberKind :=
  match m.kind with
  | .property =>
    .property (m.memberType.map QualifiedName.joined) m.typeModifier.isSome m.isDefault
      m.isReadonly m.isRequired
  | .signal => .signal (m.parameters.map (·.name.name))

/-- Enters a node of a document and the nodes below it, inside an object or outside all. -/
def member (object : Option Nat) (t : SymbolTables) (n : Node) : SymbolTables :=
  match _hk : n.kind with
  | .document headers members =>
    members.attach.foldl (fun t ⟨m, _⟩ => t.member object m) (headers.foldl header t)
  | .objectDefinition typeName initializer =>
    let (number, t) := t.addObject n.id typeName.joined object
    t.member (some number) initializer
  | .objectBinding name typeName initializer _ =>
    let t := t.addMember object name.joined .objectBinding n
    let (number, t) := t.addObject n.id typeName.joined object
    t.member (some number) initializer
  | .objectInitializer members => members.attach.foldl (fun t ⟨m, _⟩ => t.member object m) t
  | .scriptBinding name statement =>
    let t := match object with
      | some i => if name.joined == "id" then t.bindId i statement else t
      | none => t
    (t.addMember object name.joined .scriptBinding n).binding statement
  | .arrayBinding name members _ =>
    members.attach.foldl (fun t ⟨m, _⟩ => t.member object m)
      (t.addMember object name.joined .arrayBinding n)
  | .publicMember m =>
    let t := t.addMember object m.name.name (declaredKind m) n
    let t := m.statement.toList.foldl binding t
    m.binding.toList.attach.foldl (fun t ⟨b, _⟩ => t.member object b) t
  | .sourceElement element =>
    script {} ((sourceMembers element).foldl (fun t (name, kind, node) =>
      t.addMember object name kind node) t) element
  | .enumDeclaration name _ => t.addMember object name.name .enumeration n
  | .importing _ _ _ | .pragma _ => t.header n
  | _ => script {} t n
termination_by sizeOf n
decreasing_by
  all_goals
    apply Node.sizeOf_lt_of_mem_children
    simp only [Node.children, _hk, Kind.children]
    simp_all

/-- The tables of the tree below a root. -/
def ofRoot (root : Node) : SymbolTables :=
  member none (openScope {} .global root.span none) root

end SymbolTables

/-- The symbols of a source that has been read. -/
structure Symbols where
  tables : SymbolTables
  rootObject : Option Nat
  diagnostics : List Diagnostic
  imports : List Import
  isLibrary : Bool

namespace IdFault

def severity : IdFault → Severity
  | .notPlain | .inGroup => .error
  | .capital _ => .warning
  | .duplicate _ => .maybeWarning

end IdFault

namespace SymbolTables

/-- The object that a node is. -/
def objectOf? (t : SymbolTables) (node : Nat) : Option Nat :=
  t.objects.toList.findIdx? (·.node == node)

/-- The names of objects, if there are any. -/
def idEnvironment? (t : SymbolTables) : Option IdEnvironment :=
  if t.ids.isEmpty then none else some t.ids

/-- The innermost scope at an offset. A scope inside another has the greater number. -/
def scopeAt (t : SymbolTables) (offset : Nat) : Nat :=
  ((List.range t.scopes.size).reverse.find? fun i =>
    (t.scopes[i]?.map fun s => s.span.contains offset).getD false).getD 0

/-- Looks for a name in a scope and, so many times, in the scope around. -/
def lookupFrom (t : SymbolTables) (name : String) : Nat → Nat → Option Declaration
  | 0, _ => none
  | steps + 1, scope => do
    let s ← t.scopes[scope]?
    match s.find? name with
    | some d => some d
    | none => t.lookupFrom name steps (← s.parent)

/-- The declaration that a name means at an offset. -/
def lookup (t : SymbolTables) (name : String) (offset : Nat) : Option Declaration :=
  t.lookupFrom name t.scopes.size (t.scopeAt offset)

/-- The messages about ids, in the order found. -/
def diagnostics (t : SymbolTables) (lines : LineIndex) : List Diagnostic :=
  t.faults.toList.map fun (offset, fault) =>
    ⟨fault.severity, offset, lines.positionAt offset, fault.message⟩

end SymbolTables

/-- The symbols of a source whose document lies in a directory. -/
def Parse.symbols (p : Parse) (lines : LineIndex) (directory : Option Path) : Symbols :=
  let tables := SymbolTables.ofRoot p.root
  { tables
    rootObject := p.rootObject?.bind fun n => tables.objectOf? n.id
    diagnostics := tables.diagnostics lines
    imports := p.imports directory
    isLibrary := p.isLibrary }

end QmlCodeModel
