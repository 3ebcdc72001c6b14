import QmlCodeModel.Outline.Basic
import QmlCodeModel.Tree.Walk

/-! The outlines of the objects of a tree. -/
namespace QmlCodeModel

/-- What the outline of an object is made from. -/
structure ObjectForm where
  node : Nat
  typeName : String
  span : Span
  /-- The node with the members. -/
  initializer : Node

/-- What the value of a property is, as far as an outline shows it. -/
inductive ValueForm
  | script
  | object (form : ObjectForm)
  | array (node : Nat) (span : Span) (members : List ObjectForm)

structure PropertyForm where
  name : List String
  declaredType : Option String := none
  start : Nat
  valueStart : Nat
  stop : Nat
  value : ValueForm := .script

/-- What a member is in an outline. -/
inductive MemberForm
  | child (form : ObjectForm)
  | property (form : PropertyForm)

namespace Node

/-- The object that a node is. One bound to a property starts with its type name. -/
def objectForm? (n : Node) : Option ObjectForm :=
  match n.kind with
  | .objectDefinition typeName initializer => some ⟨n.id, typeName.joined, n.span, initializer⟩
  | .objectBinding _ typeName initializer on =>
    let start := if on then n.span.start else typeName.span.start
    some ⟨n.id, typeName.joined, ⟨start, n.span.stop⟩, initializer⟩
  | _ => none

def arrayForm? (n : Node) (name : List String) (start : Nat) (declaredType : Option String) :
    Option PropertyForm :=
  match n.kind with
  | .arrayBinding _ members brackets =>
    some {
      name, declaredType, start, valueStart := brackets.start, stop := brackets.stop
      value := .array n.id brackets (members.filterMap objectForm?) }
  | _ => none

/-- The value of a declared property: an array, an object, a script or nothing. -/
def declaredForm (m : PublicMember Node) : PropertyForm :=
  let name := [m.name.name]
  let declaredType := m.memberType.map QualifiedName.joined
  let start := m.name.span.start
  match m.binding with
  | some binding =>
    (binding.arrayForm? name start declaredType).getD {
      name, declaredType, start
      valueStart := binding.span.start, stop := binding.span.stop
      value := (binding.objectForm?.map .object).getD .script }
  | none =>
    let span := (m.statement.map Node.span).getD ⟨m.name.span.stop, m.name.span.stop⟩
    { name, declaredType, start, valueStart := span.start, stop := span.stop }

/-- What a member is in an outline. An id is not shown, nor are functions, signals and
enumerations. -/
def memberForm? (n : Node) : Option MemberForm :=
  match n.kind with
  | .objectDefinition typeName initializer =>
    let form : ObjectForm := ⟨n.id, typeName.joined, n.span, initializer⟩
    if typeName.isGroup then
      some <| .property {
        name := typeName.names
        start := n.span.start, valueStart := initializer.span.start, stop := n.span.stop
        value := .object form }
    else some (.child form)
  | .objectBinding name _ _ on =>
    n.objectForm?.map fun form => .property {
      name := name.names
      start := if on then n.span.start else name.span.start
      valueStart := form.span.start, stop := n.span.stop
      value := .object form }
  | .scriptBinding name statement =>
    if name.joined == "id" then none
    else
      some <| .property {
        name := name.names
        start := name.span.start, valueStart := statement.span.start, stop := statement.span.stop }
  | .arrayBinding name _ _ => (n.arrayForm? name.names name.span.start none).map .property
  | .publicMember m => if m.kind = .property then some (.property (declaredForm m)) else none
  | _ => none

end Node

/-- The objects that a value holds. -/
def ValueForm.objects : ValueForm → List ObjectForm
  | .script => []
  | .object form => [form]
  | .array _ _ members => members

/-- The objects that a member holds. -/
def MemberForm.objects : MemberForm → List ObjectForm
  | .child form => [form]
  | .property form => form.value.objects

/-- The members of an object, as far as an outline shows them. -/
def ObjectForm.members (f : ObjectForm) : List MemberForm :=
  match f.initializer.kind with
  | .objectInitializer members => members.filterMap Node.memberForm?
  | _ => []

namespace Node

theorem sizeOf_initializer_lt {n : Node} {f : ObjectForm} (h : n.objectForm? = some f) :
    sizeOf f.initializer < sizeOf n := by
  unfold objectForm? at h
  split at h
  · rename_i hk
    cases h
    exact sizeOf_lt_of_mem_children (by simp [children, hk, Kind.children])
  · rename_i hk
    cases h
    exact sizeOf_lt_of_mem_children (by simp [children, hk, Kind.children])
  · simp at h

theorem sizeOf_initializer_lt_of_arrayForm {n : Node} {name : List String} {start : Nat}
    {declaredType : Option String} {p : PropertyForm} {f : ObjectForm}
    (h : n.arrayForm? name start declaredType = some p) (hf : f ∈ p.value.objects) :
    sizeOf f.initializer < sizeOf n := by
  unfold arrayForm? at h
  split at h
  · rename_i members brackets hk
    cases h
    simp only [ValueForm.objects, List.mem_filterMap] at hf
    obtain ⟨m, hm, hf⟩ := hf
    exact Nat.lt_trans (sizeOf_initializer_lt hf)
      (sizeOf_lt_of_mem_children (by simpa [children, hk, Kind.children] using hm))
  · simp at h

theorem sizeOf_initializer_lt_of_declaredForm {m : PublicMember Node} {f : ObjectForm}
    (hf : f ∈ (declaredForm m).value.objects) :
    ∃ b ∈ m.binding, sizeOf f.initializer < sizeOf b := by
  unfold declaredForm at hf
  cases hb : m.binding with
  | none =>
    simp only [hb] at hf
    simp [ValueForm.objects] at hf
  | some b =>
    simp only [hb] at hf
    refine ⟨b, rfl, ?_⟩
    cases ha : b.arrayForm? [m.name.name] m.name.span.start
        (m.memberType.map QualifiedName.joined) with
    | some p =>
      simp only [ha, Option.getD_some] at hf
      exact sizeOf_initializer_lt_of_arrayForm ha hf
    | none =>
      simp only [ha, Option.getD_none] at hf
      cases ho : b.objectForm? with
      | none => simp [ho, ValueForm.objects] at hf
      | some g =>
        simp only [ho, Option.map_some, Option.getD_some, ValueForm.objects,
          List.mem_singleton] at hf
        exact hf ▸ sizeOf_initializer_lt ho

theorem sizeOf_initializer_lt_of_memberForm {n : Node} {m : MemberForm} {f : ObjectForm}
    (h : n.memberForm? = some m) (hf : f ∈ m.objects) : sizeOf f.initializer < sizeOf n := by
  unfold memberForm? at h
  split at h
  · rename_i typeName initializer hk
    have hlt : sizeOf initializer < sizeOf n :=
      sizeOf_lt_of_mem_children (by simp [children, hk, Kind.children])
    split at h <;> cases h <;>
      (simp only [MemberForm.objects, ValueForm.objects, List.mem_singleton] at hf
       exact hf ▸ hlt)
  · simp only [Option.map_eq_some_iff] at h
    obtain ⟨g, hg, rfl⟩ := h
    simp only [MemberForm.objects, ValueForm.objects, List.mem_singleton] at hf
    exact hf ▸ sizeOf_initializer_lt hg
  · split at h
    · simp at h
    · cases h
      simp [MemberForm.objects, ValueForm.objects] at hf
  · simp only [Option.map_eq_some_iff] at h
    obtain ⟨p, hp, rfl⟩ := h
    exact sizeOf_initializer_lt_of_arrayForm hp hf
  · rename_i declared hk
    split at h
    · cases h
      obtain ⟨b, hb, hlt⟩ := sizeOf_initializer_lt_of_declaredForm hf
      refine Nat.lt_trans hlt (sizeOf_lt_of_mem_children ?_)
      simp only [children, hk, Kind.children, List.mem_append, Option.mem_toList]
      exact .inr hb
    · simp at h
  · simp at h

end Node

theorem ObjectForm.sizeOf_initializer_lt {f g : ObjectForm} {m : MemberForm}
    (hm : m ∈ f.members) (hg : g ∈ m.objects) :
    sizeOf g.initializer < sizeOf f.initializer := by
  unfold members at hm
  split at hm
  · rename_i nodes hk
    simp only [List.mem_filterMap] at hm
    obtain ⟨n, hn, hm⟩ := hm
    exact Nat.lt_trans (Node.sizeOf_initializer_lt_of_memberForm hm hg)
      (Node.sizeOf_lt_of_mem_children (by simpa [Node.children, hk, Kind.children] using hn))
  · simp at hm

/-- The outline of an object. An array is a list without a type, with its members as children. -/
def ObjectForm.outline (f : ObjectForm) : Outline :=
  let members := f.members.attach
  let properties := members.filterMap fun ⟨m, _hm⟩ =>
    match _hp : m with
    | .property p =>
      let child := match _hv : p.value with
        | .script => none
        | .object g => some g.outline
        | .array node span objects =>
          some (.mk node "" span [] (objects.attach.map fun ⟨g, _⟩ => g.outline))
      some {
        name := p.name, ownerType := f.typeName, declaredType := p.declaredType
        start := p.start, valueStart := p.valueStart, stop := p.stop, child }
    | .child _ => none
  let children := members.filterMap fun ⟨m, _hm⟩ =>
    match _hc : m with
    | .child g => some g.outline
    | .property _ => none
  .mk f.node f.typeName f.span properties children
termination_by sizeOf f.initializer
decreasing_by
  all_goals
    apply ObjectForm.sizeOf_initializer_lt _hm
    simp [MemberForm.objects, ValueForm.objects, *]

/-- The outline of the first object at or below a node. -/
def Node.outline? (n : Node) : Option Outline :=
  (n.walk.find? (·.kind.isQmlObject)).bind fun first =>
    first.objectForm?.map ObjectForm.outline

end QmlCodeModel
