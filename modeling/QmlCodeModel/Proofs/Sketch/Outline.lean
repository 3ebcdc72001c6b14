import Mathlib.Data.List.Forall2
import QmlCodeModel.Proofs.Outline.Layout
import QmlCodeModel.Proofs.Sketch.Basic
import QmlCodeModel.Text.Span

/-! When an outline shows a sketch: it has the same types, properties and objects in the same order, and
where it says that a value stands, the source has the text of that value. -/
namespace QmlCodeModel.Sketch

mutual

/-- An outline shows an object with a type and members, which stands on a line of some level. -/
inductive Shows (source : String) (w : Nat) : Nat → String → List Member → Outline → Prop
  | mk {level node : Nat} {typeName : String} {members : List Member} {span : Span}
    {properties : List (OutlineProperty Outline)} {children : List Outline}
    (h : ShowsMembers source w (level + 1) typeName members properties children) :
    Shows source w level typeName members (.mk node typeName span properties children)

/-- Properties and objects show the members of an object of this type, in order. -/
inductive ShowsMembers (source : String) (w : Nat) : Nat → String → List Member →
    List (OutlineProperty Outline) → List Outline → Prop
  | nil {level : Nat} {owner : String} : ShowsMembers source w level owner [] [] []
  | child {level : Nat} {owner : String} {object : Sketch} {members : List Member} {shown : Outline}
    {properties : List (OutlineProperty Outline)} {children : List Outline}
    (h : Shows source w level object.typeName.joined object.members shown)
    (later : ShowsMembers source w level owner members properties children) :
    ShowsMembers source w level owner (.child object :: members) properties (shown :: children)
  | property {level : Nat} {owner : String} {m : Member} {members : List Member}
    {p : OutlineProperty Outline} {properties : List (OutlineProperty Outline)} {children : List Outline}
    (name : m.name? = some p.name) (owned : p.ownerType = owner) (undeclared : p.declaredType = none)
    (text : sliceText? source ⟨p.valueStart,p.stop⟩ = some (m.valueText w level))
    (value : ShowsValue source w level m p.child)
    (later : ShowsMembers source w level owner members properties children) :
    ShowsMembers source w level owner (m :: members) (p :: properties) children

/-- The object of a property shows its value. A script has none, and an array is a list without type. -/
inductive ShowsValue (source : String) (w : Nat) : Nat → Member → Option Outline → Prop
  | script {level : Nat} {name : ScriptName} {value : Numeral} :
    ShowsValue source w level (.script name value) none
  | group {level : Nat} {name : GroupName} {members : List Member} {shown : Outline}
    (h : Shows source w level name.joined members shown) :
    ShowsValue source w level (.group name members) (some shown)
  | bound {level : Nat} {name : DottedName} {object : Sketch} {shown : Outline}
    (h : Shows source w level object.typeName.joined object.members shown) :
    ShowsValue source w level (.bound name object) (some shown)
  | put {level : Nat} {target : DottedName} {object : Sketch} {shown : Outline}
    (h : Shows source w level object.typeName.joined object.members shown) :
    ShowsValue source w level (.put object target) (some shown)
  | array {level node : Nat} {name : DottedName} {first : Sketch} {later : List Sketch} {span : Span}
    {shown : List Outline} (h : ShowsList source w level (first :: later) shown) :
    ShowsValue source w level (.array name first later) (some (.mk node "" span [] shown))

/-- Outlines show objects, in order. -/
inductive ShowsList (source : String) (w : Nat) : Nat → List Sketch → List Outline → Prop
  | nil {level : Nat} : ShowsList source w level [] []
  | cons {level : Nat} {object : Sketch} {objects : List Sketch} {shown : Outline} {later : List Outline}
    (h : Shows source w level object.typeName.joined object.members shown)
    (hlater : ShowsList source w level objects later) :
    ShowsList source w level (object :: objects) (shown :: later)

end

/-! When nodes are drawn as sketched. -/

variable {source : String} {w level : Nat}

/-- A node with members in braces: the outline of an object around it shows the members, whatever the
object is. -/
def Fills (source : String) (w level : Nat) (members : List Member) (body : Node) : Prop :=
  ∀ node typeName span,
    Shows source w level typeName members (ObjectForm.outline ⟨node,typeName,span,body⟩)

/-- A node that is an object. -/
def Draws (source : String) (w level : Nat) (object : Sketch) (n : Node) : Prop :=
  ∃ f, n.objectForm? = some f ∧ Shows source w level object.typeName.joined object.members f.outline

/-- A node that is a member. -/
inductive DrawsMember (source : String) (w level : Nat) : Member → Node → Prop
  | child {object : Sketch} {n : Node} {f : ObjectForm} (form : n.memberForm? = some (.child f))
    (h : Shows source w level object.typeName.joined object.members f.outline) :
    DrawsMember source w level (.child object) n
  | property {m : Member} {n : Node} {p : PropertyForm} (form : n.memberForm? = some (.property p))
    (name : m.name? = some p.name) (undeclared : p.declaredType = none)
    (text : sliceText? source ⟨p.valueStart,p.stop⟩ = some (m.valueText w level))
    (value : ShowsValue source w level m p.value.outline?) : DrawsMember source w level m n

/-- The outlines of nodes that are members show them. -/
lemma showsMembers {members : List Member} {nodes : List Node}
    (h : List.Forall₂ (DrawsMember source w level) members nodes) (owner : String) :
    ShowsMembers source w level owner members
      ((nodes.filterMap Node.memberForm?).filterMap (MemberForm.property? owner))
      ((nodes.filterMap Node.memberForm?).filterMap MemberForm.child?) := by
  induction h with
  | nil => exact .nil
  | cons h _ ih =>
    cases h with
    | child form h =>
      rw [List.filterMap_cons_some form]
      exact .child h ih
    | property form name undeclared text value =>
      rw [List.filterMap_cons_some form]
      exact .property name rfl undeclared text value ih

lemma fills_of_kind {members : List Member} {nodes : List Node} {body : Node}
    (hkind : body.kind = .objectInitializer nodes)
    (h : List.Forall₂ (DrawsMember source w (level + 1)) members nodes) :
    Fills source w level members body := by
  intro node typeName span
  rw [ObjectForm.outline_eq,ObjectForm.members,hkind]
  exact .mk (showsMembers h typeName)

section

variable {n body : Node} {name typeName : QualifiedName} {members : List Member}

lemma joined_eq {d : DottedName} (h : name.names = d.names) : name.joined = d.joined := by
  unfold QualifiedName.joined DottedName.joined
  rw [h]

/-- The first letter of a dotted name tells groups. -/
lemma isGroup_eq {d : DottedName} (h : name.names = d.names) :
    name.isGroup = startsLowercase d.first.text := by
  unfold QualifiedName.isGroup
  unfold QualifiedName.names DottedName.names at h
  cases hparts : name.parts with
  | nil => simp [hparts] at h
  | cons part parts =>
    rw [hparts,List.map_cons,List.map_cons,List.cons.injEq] at h
    simp [h.1]

lemma draws_of_kind {type : TypeName} (hkind : n.kind = .objectDefinition typeName body)
    (hname : typeName.names = type.names) (h : Fills source w level members body) :
    Draws source w level (.mk type members) n := by
  refine ⟨⟨n.id,typeName.joined,n.span,body⟩,by simp [Node.objectForm?,hkind],?_⟩
  rw [joined_eq hname]
  exact h _ _ _

lemma drawsMember_child {type : TypeName} (hkind : n.kind = .objectDefinition typeName body)
    (hname : typeName.names = type.names) (h : Fills source w level members body) :
    DrawsMember source w level (.child (.mk type members)) n := by
  have hgroup : typeName.isGroup = false := by
    rw [isGroup_eq hname]
    exact not_startsLowercase (type.capital _ List.mem_cons_self)
  refine .child (f := ⟨n.id,typeName.joined,n.span,body⟩) (by simp [Node.memberForm?,hkind,hgroup]) ?_
  rw [joined_eq hname]
  exact h _ _ _

lemma drawsMember_group {group : GroupName} (hkind : n.kind = .objectDefinition name body)
    (hname : name.names = group.names) (h : Fills source w level members body)
    (htext : sliceText? source ⟨body.span.start,n.span.stop⟩ =
      some ((Member.group group members).valueText w level)) :
    DrawsMember source w level (.group group members) n := by
  have hgroup : name.isGroup = true := by
    rw [isGroup_eq hname]
    exact group.small
  have hform : n.memberForm? = some (.property {
      name := name.names, start := n.span.start, valueStart := body.span.start, stop := n.span.stop
      value := .object ⟨n.id,name.joined,n.span,body⟩ }) := by
    simp [Node.memberForm?,hkind,hgroup]
  refine .property hform (by rw [hname]; rfl) rfl htext (.group ?_)
  rw [joined_eq hname]
  exact h _ _ _

lemma drawsMember_bound {d : DottedName} {type : TypeName}
    (hkind : n.kind = .objectBinding name typeName body false) (hname : name.names = d.names)
    (htype : typeName.names = type.names) (h : Fills source w level members body)
    (htext : sliceText? source ⟨typeName.span.start,n.span.stop⟩ =
      some ((Member.bound d (.mk type members)).valueText w level)) :
    DrawsMember source w level (.bound d (.mk type members)) n := by
  have hform : n.memberForm? = some (.property {
      name := name.names, start := name.span.start, valueStart := typeName.span.start, stop := n.span.stop
      value := .object ⟨n.id,typeName.joined,⟨typeName.span.start,n.span.stop⟩,body⟩ }) := by
    simp [Node.memberForm?,Node.objectForm?,hkind]
  refine .property hform (by rw [hname]; rfl) rfl htext (.bound ?_)
  rw [joined_eq htype]
  exact h _ _ _

lemma drawsMember_put {target : DottedName} {type : TypeName}
    (hkind : n.kind = .objectBinding name typeName body true) (hname : name.names = target.names)
    (htype : typeName.names = type.names) (h : Fills source w level members body)
    (htext : sliceText? source n.span = some ((Member.put (.mk type members) target).valueText w level)) :
    DrawsMember source w level (.put (.mk type members) target) n := by
  have hform : n.memberForm? = some (.property {
      name := name.names, start := n.span.start, valueStart := n.span.start, stop := n.span.stop
      value := .object ⟨n.id,typeName.joined,n.span,body⟩ }) := by
    simp [Node.memberForm?,Node.objectForm?,hkind]
  refine .property hform (by rw [hname]; rfl) rfl htext (.put ?_)
  rw [joined_eq htype]
  exact h _ _ _

lemma drawsMember_script {d : ScriptName} {value : Numeral} {statement : Node}
    (hkind : n.kind = .scriptBinding name statement) (hname : name.names = d.names)
    (htext : sliceText? source statement.span = some ((Member.script d value).valueText w level)) :
    DrawsMember source w level (.script d value) n := by
  have hform : n.memberForm? = some (.property {
      name := name.names, start := name.span.start
      valueStart := statement.span.start, stop := statement.span.stop }) := by
    simp [Node.memberForm?,hkind,joined_eq hname,d.noId]
  exact .property hform (by rw [hname]; rfl) rfl htext .script

lemma showsList {objects : List Sketch} {nodes : List Node}
    (h : List.Forall₂ (Draws source w level) objects nodes) :
    ShowsList source w level objects ((nodes.filterMap Node.objectForm?).map ObjectForm.outline) := by
  induction h with
  | nil => exact .nil
  | cons h _ ih =>
    obtain ⟨f,hform,hshown⟩ := h
    rw [List.filterMap_cons_some hform]
    exact .cons hshown ih

lemma drawsMember_array {d : DottedName} {first : Sketch} {later : List Sketch} {nodes : List Node}
    {places : Span} (hkind : n.kind = .arrayBinding name nodes places) (hname : name.names = d.names)
    (h : List.Forall₂ (Draws source w level) (first :: later) nodes)
    (htext : sliceText? source places = some ((Member.array d first later).valueText w level)) :
    DrawsMember source w level (.array d first later) n := by
  have hform : n.memberForm? = some (.property {
      name := name.names, start := name.span.start, valueStart := places.start, stop := places.stop
      value := .array n.id places (nodes.filterMap Node.objectForm?) }) := by
    simp [Node.memberForm?,Node.arrayForm?,hkind]
  exact .property hform (by rw [hname]; rfl) rfl htext (.array (showsList h))

end

end QmlCodeModel.Sketch
