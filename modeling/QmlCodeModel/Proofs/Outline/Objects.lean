import Mathlib.Data.List.Perm.Basic
import QmlCodeModel.Proofs.Outline.Layout
import QmlCodeModel.Proofs.Tree.Objects

/-! The outline of a document holds the objects of its tree, each as a part of the same object. Their order
is another one: an outline has the properties of an object before its children. -/
namespace QmlCodeModel

namespace Outline

/-- The objects that the value of a property is. That of an array is a list without a type, which holds
them as its children. -/
def values (o : Outline) : List Outline := if o.typeName = "" then o.children else [o]

/-- The objects that an object owns: values of its properties, members of their arrays, and children. -/
def owned (o : Outline) : List Outline :=
  o.properties.flatMap (fun p => p.child.toList.flatMap values) ++ o.children

variable {o c : Outline}

lemma sizeOf_lt_of_mem_owned (h : c ∈ o.owned) : sizeOf c < sizeOf o := by
  obtain h | h := List.mem_append.mp h
  · obtain ⟨p,hp,h⟩ := List.mem_flatMap.mp h
    obtain ⟨v,hv,h⟩ := List.mem_flatMap.mp h
    have hlt := sizeOf_lt_of_mem_properties hp (Option.mem_toList.mp hv)
    unfold values at h
    split at h
    · exact Nat.lt_trans (sizeOf_lt_of_mem_children h) hlt
    · rw [List.mem_singleton.mp h]
      exact hlt
  · exact sizeOf_lt_of_mem_children h

/-- An object and all objects in it. -/
def objects (o : Outline) : List Outline := o :: o.owned.attach.flatMap fun ⟨c, _⟩ => c.objects
termination_by sizeOf o
decreasing_by exact sizeOf_lt_of_mem_owned ‹_›

lemma objects_eq (o : Outline) : o.objects = o :: o.owned.flatMap objects := by
  rw [objects]
  exact congrArg (o :: ·) (flatMap_attach o.owned objects)

/-- All objects but the outermost are owned by another. -/
lemma eq_or_mem_owned (h : c ∈ o.objects) : c = o ∨ ∃ x ∈ o.objects, c ∈ x.owned := by
  induction hsize : sizeOf o using Nat.strongRecOn generalizing o with
  | ind size ih =>
    subst hsize
    rw [objects_eq] at h ⊢
    obtain rfl | h := List.mem_cons.mp h
    · exact .inl rfl
    · right
      obtain ⟨d,hd,h⟩ := List.mem_flatMap.mp h
      obtain rfl | ⟨x,hx,hc⟩ := ih _ (sizeOf_lt_of_mem_owned hd) h rfl
      · exact ⟨o,List.mem_cons_self,hd⟩
      · exact ⟨x,List.mem_cons_of_mem _ (List.mem_flatMap.mpr ⟨d,hd,hx⟩),hc⟩

/-- The objects of an outline, each with the node of the object that owns it. -/
def entries (owner : Option Nat) (o : Outline) : List ObjectEntry :=
  ⟨o.node, o.typeName, owner⟩ :: o.owned.attach.flatMap fun ⟨c, _⟩ => c.entries (some o.node)
termination_by sizeOf o
decreasing_by exact sizeOf_lt_of_mem_owned ‹_›

lemma entries_eq (owner : Option Nat) (o : Outline) :
    o.entries owner = ⟨o.node, o.typeName, owner⟩ :: o.owned.flatMap (entries (some o.node)) := by
  rw [entries]
  exact congrArg (_ :: ·) (flatMap_attach o.owned (entries (some o.node)))

lemma map_node_entries (owner : Option Nat) (o : Outline) :
    (o.entries owner).map ObjectEntry.node = o.objects.map Outline.node := by
  induction hsize : sizeOf o using Nat.strongRecOn generalizing o owner with
  | ind size ih =>
    subst hsize
    rw [entries_eq,objects_eq,List.map_cons,List.map_cons,List.map_flatMap,List.map_flatMap]
    congr 1
    apply List.flatMap_congr
    intro c hc
    exact ih _ (sizeOf_lt_of_mem_owned hc) _ _ rfl

/-- An object of an outline stands among the entries with its owner, and what it owns with itself. -/
lemma mem_entries (owner : Option Nat) {x : Outline} (hx : x ∈ o.objects) :
    (∃ other, ⟨x.node, x.typeName, other⟩ ∈ o.entries owner) ∧
      ∀ y ∈ x.owned, ⟨y.node, y.typeName, some x.node⟩ ∈ o.entries owner := by
  induction hsize : sizeOf o using Nat.strongRecOn generalizing o owner with
  | ind size ih =>
    subst hsize
    rw [objects_eq] at hx
    rw [entries_eq]
    obtain rfl | hx := List.mem_cons.mp hx
    · refine ⟨⟨owner,List.mem_cons_self⟩,?_⟩
      intro y hy
      apply List.mem_cons_of_mem
      apply List.mem_flatMap.mpr
      refine ⟨y,hy,?_⟩
      rw [entries_eq]
      exact List.mem_cons_self
    · obtain ⟨c,hc,hx⟩ := List.mem_flatMap.mp hx
      obtain ⟨⟨other,hself⟩,howned⟩ := ih _ (sizeOf_lt_of_mem_owned hc) (some o.node) hx rfl
      have hmem {e : ObjectEntry} (h : e ∈ c.entries (some o.node)) :
          e ∈ o.owned.flatMap (entries (some o.node)) := List.mem_flatMap.mpr ⟨c,hc,h⟩
      refine ⟨⟨other,List.mem_cons_of_mem _ (hmem hself)⟩,?_⟩
      intro y hy
      exact List.mem_cons_of_mem _ (hmem (howned y hy))

end Outline

/-! Objects of an outline and nodes of the tree. -/

/-- The objects that a member of an object holds. -/
def Node.forms (n : Node) : List ObjectForm := n.memberForm?.toList.flatMap MemberForm.objects

lemma PropertyForm.values_outline {p : PropertyForm} {owner : String}
    (h : ∀ g ∈ p.value.objects, g.typeName ≠ "") :
    (p.outline owner).child.toList.flatMap Outline.values = p.value.objects.map ObjectForm.outline := by
  unfold PropertyForm.outline
  cases hv : p.value with
  | script => rfl
  | object g =>
    rw [hv] at h
    have hg := h g (List.mem_singleton_self g)
    simp [ValueForm.outline?,ValueForm.objects,Outline.values,ObjectForm.typeName_outline,hg]
  | array node span members =>
    simp [ValueForm.outline?,ValueForm.objects,Outline.values,Outline.typeName,Outline.children]

/-- Taking the properties of an object before its children changes the order of what it owns, nothing
else. -/
lemma perm_members (owner : String) {members : List MemberForm}
    (h : ∀ m ∈ members, ∀ g ∈ m.objects, g.typeName ≠ "") :
    ((members.filterMap (MemberForm.property? owner)).flatMap fun p => p.child.toList.flatMap Outline.values) ++
      members.filterMap MemberForm.child? |>.Perm
        (members.flatMap fun m => m.objects.map ObjectForm.outline) := by
  induction members with
  | nil => exact .nil
  | cons m members ih =>
    have ih := ih fun m hm => h m (List.mem_cons_of_mem _ hm)
    have hm := h m List.mem_cons_self
    cases m with
    | child g =>
      change (_ ++ g.outline :: members.filterMap MemberForm.child?).Perm (g.outline :: _)
      exact List.perm_middle.trans (ih.cons _)
    | property p =>
      change ((p.outline owner :: _).flatMap _ ++ members.filterMap MemberForm.child?).Perm _
      rw [List.flatMap_cons,List.flatMap_cons,PropertyForm.values_outline hm,List.append_assoc]
      exact ih.append_left _

lemma ObjectForm.owned_outline {f : ObjectForm} (h : ∀ m ∈ f.members, ∀ g ∈ m.objects, g.typeName ≠ "") :
    f.outline.owned.Perm (f.members.flatMap fun m => m.objects.map ObjectForm.outline) := by
  rw [ObjectForm.outline_eq]
  exact perm_members f.typeName h

namespace Node

variable {n : Node} {f g : ObjectForm}

/-- The members of an object are its nodes in braces. -/
lemma members_eq (hbody : f.initializer.kind.isBody) :
    f.members = f.initializer.children.filterMap memberForm? := by
  unfold ObjectForm.members children
  unfold Kind.isBody at hbody
  split
  · rename_i hk
    simp [hk,Kind.children]
  · rename_i hk
    split at hbody
    · rename_i hmembers
      exact absurd hmembers (hk _)
    · rename_i herror
      simp [herror,Kind.children]
    · cases hbody

/-- The member that an object is holds just that object. -/
lemma forms_of_object (hf : n.objectForm? = some f) : n.forms = [f] := by
  obtain ⟨id,span,kind⟩ := n
  unfold forms
  cases kind
  case objectDefinition typeName init =>
    cases hf
    simp only [memberForm?,kind]
    split <;> rfl
  case objectBinding name typeName init on =>
    cases hf
    rfl
  all_goals cases hf

lemma forms_of_array {name : QualifiedName} {members : List Node} {brackets : Span}
    (hk : n.kind = .arrayBinding name members brackets) : n.forms = members.filterMap objectForm? := by
  unfold forms memberForm? arrayForm?
  simp [hk,MemberForm.objects,ValueForm.objects]

/-- A declared property holds what its first value holds. -/
lemma forms_of_declared {m : PublicMember Node} {b : Node} (hk : n.kind = .publicMember m)
    (hproperty : m.kind = .property) (hbinding : m.binding = some b)
    (hvalue : b.objectForm?.isSome ∨ ∃ name members brackets, b.kind = .arrayBinding name members brackets) :
    n.forms = b.forms := by
  have hn : n.forms = (declaredForm m).value.objects := by
    unfold forms memberForm?
    simp [hk,hproperty,MemberForm.objects]
  rw [hn]
  unfold declaredForm
  simp only [hbinding]
  obtain hobject | ⟨name,members,brackets,harray⟩ := hvalue
  · obtain ⟨f,hf⟩ := Option.isSome_iff_exists.mp hobject
    have hnone (names : List String) (start : Nat) (declared : Option String) :
        b.arrayForm? names start declared = none := by
      obtain ⟨id,span,kind⟩ := b
      cases kind
      case arrayBinding => cases hf
      all_goals rfl
    rw [hnone,forms_of_object hf,hf]
    rfl
  · rw [forms_of_array harray]
    simp [arrayForm?,harray,ValueForm.objects]

/-- A member without an object in it holds none. -/
lemma Quiet.forms (h : n.Quiet) : n.forms = [] := by
  have harray {n : Node} {name : QualifiedName} {members : List Node} {brackets : Span}
      (hk : n.kind = .arrayBinding name members brackets) (h : n.Quiet) :
      members.filterMap objectForm? = [] := by
    rw [List.filterMap_eq_nil_iff]
    intro c hc
    apply (h.child _).none
    simpa [Node.children,hk,Kind.children] using hc
  have hnone := h.none
  cases hk : n.kind
  case objectDefinition => simp [objectForm?,hk] at hnone
  case objectBinding => simp [objectForm?,hk] at hnone
  case scriptBinding name x =>
    unfold Node.forms memberForm?
    simp only [hk]
    split <;> rfl
  case arrayBinding name members brackets =>
    rw [forms_of_array hk]
    exact harray hk h
  case publicMember m =>
    unfold Node.forms memberForm?
    simp only [hk]
    split
    · change (declaredForm m).value.objects ++ [] = []
      rw [List.append_nil]
      unfold declaredForm
      cases hb : m.binding with
      | none => rfl
      | some b =>
        have hquiet : b.Quiet := by
          apply h.child
          simp [Node.children,hk,Kind.children,hb]
        simp only [arrayForm?]
        split
        · rename_i hmembers
          simp [ValueForm.objects,harray hmembers hquiet]
        · simp [hquiet.none,ValueForm.objects]
    · rfl
  all_goals simp [Node.forms,memberForm?,hk]

/-- The objects of a node in its outline and in the tree. -/
structure Agrees (n : Node) : Prop where
  object : ∀ f, n.objectForm? = some f → ∀ owner, (f.outline.entries owner).Perm (n.entries owner)
  member : ∀ owner, (n.forms.flatMap fun g => g.outline.entries owner).Perm (n.entries owner)

lemma agrees_of_none (hnone : n.objectForm? = none)
    (h : ∀ owner, (n.forms.flatMap fun g => g.outline.entries owner).Perm (n.entries owner)) : n.Agrees := by
  refine ⟨?_,h⟩
  intro f hf
  rw [hnone] at hf
  cases hf

/-- An object agrees if the members in its braces do. -/
lemma agrees_of_members (hn : n.Sound) (hf : n.objectForm? = some f) (hbody : f.initializer.kind.isBody)
    (h : ∀ c ∈ f.initializer.children, c.Agrees) : n.Agrees := by
  have hsound : f.Sound := ⟨n,hn,hf⟩
  have howned : f.outline.owned.Perm (f.initializer.children.flatMap fun c => c.forms.map ObjectForm.outline) := by
    have hperm := f.owned_outline fun m hm g hg => (hsound.ordered.sound m hm g hg).typed
    rw [members_eq hbody,List.filterMap_eq_flatMap_toList,List.flatMap_assoc] at hperm
    simp only [forms,List.map_flatMap]
    exact hperm
  have hobject (owner : Option Nat) : (f.outline.entries owner).Perm (n.entries owner) := by
    have hself : f.outline.node = n.id ∧ f.outline.typeName = f.typeName := by
      rw [ObjectForm.outline_eq]
      exact ⟨node_of_objectForm hf,rfl⟩
    rw [Outline.entries_eq,entries_of_body owner hf hbody,hself.1,hself.2]
    apply List.Perm.cons
    calc
      f.outline.owned.flatMap (Outline.entries (some n.id))
      _ |>.Perm ((f.initializer.children.flatMap fun c => c.forms.map ObjectForm.outline).flatMap
            (Outline.entries (some n.id))) := howned.flatMap_right _
      _ = f.initializer.children.flatMap fun c => c.forms.flatMap fun g => g.outline.entries (some n.id) := by
        simp only [List.flatMap_assoc,List.flatMap_map]
      _ |>.Perm (f.initializer.children.flatMap (entries (some n.id))) :=
        List.Perm.flatMap_left _ fun c hc => (h c hc).member _
  refine ⟨?_,?_⟩
  · intro f' hf' owner
    rw [hf] at hf'
    cases hf'
    exact hobject owner
  · intro owner
    rw [forms_of_object hf,List.flatMap_singleton]
    exact hobject owner

/-- The outlines of the objects in brackets hold the objects in the brackets. -/
lemma perm_members_of_array {members : List Node} (hobjects : ∀ c ∈ members, c.objectForm?.isSome)
    (h : ∀ c ∈ members, c.Agrees) (owner : Option Nat) :
    ((members.filterMap objectForm?).flatMap fun g => g.outline.entries owner).Perm
      (members.flatMap (entries owner)) := by
  rw [List.filterMap_eq_flatMap_toList,List.flatMap_assoc]
  apply List.Perm.flatMap_left
  intro c hc
  obtain ⟨f,hf⟩ := Option.isSome_iff_exists.mp (hobjects c hc)
  rw [hf,Option.toList_some,List.flatMap_singleton]
  exact (h c hc).object f hf owner

/-- By induction on where objects stand. -/
theorem Orderly.agrees (h : n.Orderly) (hn : n.Sound) : n.Agrees := by
  induction h with
  | quiet h =>
    apply agrees_of_none h.none
    intro owner
    rw [h.forms,h.entries]
    exact .nil
  | @object n f hf body members ih =>
    apply agrees_of_members hn hf body
    intro c hc
    apply ih c hc
    apply (hn.of_mem_children _).of_mem_children hc
    rw [children_of_objectForm hf]
    exact List.mem_singleton_self _
  | @array n name members brackets hk objects below ih =>
    have hchildren : n.children = members := by simp [children,hk,Kind.children]
    have hnone : n.objectForm? = none := by simp [objectForm?,hk]
    apply agrees_of_none hnone
    intro owner
    rw [forms_of_array hk,entries_of_none owner hnone,hchildren]
    apply perm_members_of_array objects
    intro c hc
    exact ih c hc (hn.of_mem_children (hchildren ▸ hc))
  | @declared n b m hk property statement binding value below declares ih =>
    have hchildren : n.children = [b] := by simp [children,hk,Kind.children,statement,binding]
    have hnone : n.objectForm? = none := by simp [objectForm?,hk]
    apply agrees_of_none hnone
    intro owner
    rw [forms_of_declared hk property binding value,entries_of_none owner hnone,hchildren,
      List.flatMap_singleton]
    exact (ih (hn.of_mem_children (by simp [hchildren]))).member owner

/-- The first object of a document is its root object. -/
lemma find?_walk {root : Node} {headers members : List Node} (hk : root.kind = .document headers members)
    (quiet : ∀ c ∈ headers, c.Quiet) (objects : ∀ c ∈ members, c.objectForm?.isSome) :
    root.walk.find? (·.kind.isQmlObject) = members.head? := by
  have hheaders : (headers.flatMap walk).find? (·.kind.isQmlObject) = none := by
    rw [List.find?_eq_none]
    intro x hx
    obtain ⟨c,hc,hx⟩ := List.mem_flatMap.mp hx
    rw [isQmlObject_eq,(quiet c hc).empty x hx]
    exact Bool.false_ne_true
  have hmembers : (members.flatMap walk).find? (·.kind.isQmlObject) = members.head? := by
    cases members with
    | nil => rfl
    | cons c members =>
      have hc := objects c List.mem_cons_self
      rw [← isQmlObject_eq] at hc
      rw [List.flatMap_cons,walk_eq,List.cons_append]
      exact List.find?_cons_of_pos (p := fun x : Node => x.kind.isQmlObject) hc
  have hroot : ¬(fun x : Node => x.kind.isQmlObject) root := by simp [hk,Kind.isQmlObject]
  have hchildren : root.children = headers ++ members := by simp [children,hk,Kind.children]
  rw [walk_eq,List.find?_cons_of_neg (p := fun x : Node => x.kind.isQmlObject) hroot,hchildren,List.flatMap_append,List.find?_append,hheaders]
  exact hmembers

/-- The outline of a document holds the objects of its tree. -/
theorem Rooted.perm_entries {root : Node} (h : root.Rooted) (hsound : root.Sound) :
    (root.outline?.toList.flatMap (Outline.entries none)).Perm (root.entries none) := by
  cases h with
  | @mk headers members hk quiet single objects below =>
    have hnone : root.objectForm? = none := by simp [objectForm?,hk]
    have hchildren : root.children = headers ++ members := by simp [children,hk,Kind.children]
    have hheaders : headers.flatMap (entries none) = [] := by
      rw [List.flatMap_eq_nil_iff]
      intro c hc
      exact (quiet c hc).entries none
    unfold outline?
    rw [find?_walk hk quiet objects,entries_of_none none hnone,hchildren,List.flatMap_append,hheaders,
      List.nil_append]
    obtain _ | ⟨c,_ | ⟨d,later⟩⟩ := members
    · exact .nil
    · obtain ⟨f,hf⟩ := Option.isSome_iff_exists.mp (objects c List.mem_cons_self)
      have hc : c.Sound := hsound.of_mem_children (by simp [hchildren])
      rw [List.head?_cons,Option.bind_some,hf,Option.map_some,Option.toList_some,List.flatMap_singleton,
        List.flatMap_singleton]
      exact ((below c List.mem_cons_self).agrees hc).object f hf none
    · simp only [List.length_cons] at single
      omega

end Node

end QmlCodeModel
