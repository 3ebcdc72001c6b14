import QmlCodeModel.Proofs.Tree.Objects
import QmlCodeModel.Symbols.Tables

/-! The objects in the symbol tables of a tree are those of the tree, in the same order and each with the
object that it is a part of. -/
namespace QmlCodeModel

/-- What is said once and for all of an object that is entered. The parent is the number of an object. -/
structure ObjectKey where
  node : Nat
  typeName : String
  parent : Option Nat

def ObjectValue.key (o : ObjectValue) : ObjectKey := ⟨o.node, o.typeName, o.parent⟩

namespace ObjectKey

/-- The node of an object among these. -/
def nodeAt (keys : List ObjectKey) (number : Nat) : Option Nat := keys[number]?.map node

/-- An object among these, with the node of its parent. -/
def entry (keys : List ObjectKey) (k : ObjectKey) : ObjectEntry :=
  ⟨k.node, k.typeName, k.parent.bind (nodeAt keys)⟩

/-- Objects have been entered behind others. Their parents have been entered too. -/
structure Adds (keys : List ObjectKey) (entries : List ObjectEntry) (keys' : List ObjectKey) : Prop where
  later : ∃ later, keys' = keys ++ later ∧ (∀ k ∈ later, ∀ i ∈ k.parent, i < keys'.length) ∧
    later.map (entry keys') = entries

variable {keys keys' keys'' : List ObjectKey} {es es' : List ObjectEntry}

lemma nodeAt_append {later : List ObjectKey} {i : Nat} (h : i < keys.length) :
    nodeAt (keys ++ later) i = nodeAt keys i := by
  unfold nodeAt
  rw [List.getElem?_append_left h]

/-- Later objects do not change who the parent of an object is. -/
lemma entry_append {later : List ObjectKey} {k : ObjectKey} (h : ∀ i ∈ k.parent, i < keys.length) :
    entry (keys ++ later) k = entry keys k := by
  unfold entry
  cases hparent : k.parent with
  | none => rfl
  | some i =>
    change ObjectEntry.mk _ _ (nodeAt (keys ++ later) i) = ⟨_,_,nodeAt keys i⟩
    rw [nodeAt_append (h i hparent)]

namespace Adds

lemma refl (keys : List ObjectKey) : Adds keys [] keys := ⟨[],by simp⟩

lemma trans (h : Adds keys es keys') (h' : Adds keys' es' keys'') : Adds keys (es ++ es') keys'' := by
  obtain ⟨later,rfl,hparents,rfl⟩ := h.later
  obtain ⟨later',rfl,hparents',rfl⟩ := h'.later
  refine ⟨later ++ later',by simp,?_,?_⟩
  · intro k hk i hi
    obtain hk | hk := List.mem_append.mp hk
    · have := hparents k hk i hi
      simp only [List.length_append] at this ⊢
      omega
    · exact hparents' k hk i hi
  · rw [List.map_append]
    congr 1
    apply List.map_congr_left
    intro k hk
    exact entry_append (hparents k hk)

/-- One object is entered. -/
lemma push {k : ObjectKey} (h : ∀ i ∈ k.parent, i < keys.length) :
    Adds keys [entry keys k] (keys ++ [k]) := by
  refine ⟨[k],rfl,?_,?_⟩
  · intro k' hk i hi
    rw [List.mem_singleton.mp hk] at hi
    have := h i hi
    simp only [List.length_append,List.length_singleton]
    omega
  · rw [List.map_singleton,entry_append h]

end Adds

/-- The number of an object and its node, or neither. -/
structure Stands (keys : List ObjectKey) (object owner : Option Nat) : Prop where
  lt : ∀ i ∈ object, i < keys.length
  node : object.bind (nodeAt keys) = owner

/-- Objects keep their numbers. -/
lemma Stands.later {object owner : Option Nat} (h : Stands keys object owner) (hadds : Adds keys es keys') :
    Stands keys' object owner := by
  obtain ⟨later,rfl,-,-⟩ := hadds.later
  refine ⟨?_,?_⟩
  · intro i hi
    have := h.lt i hi
    simp only [List.length_append]
    omega
  · rw [← h.node]
    cases object with
    | none => rfl
    | some i => exact nodeAt_append (h.lt i rfl)

end ObjectKey

namespace Node

lemma mem_walk_of_isNear {n x : Node} (h : n.IsNear x) : x ∈ n.walk := by
  obtain h | ⟨c,hc,h⟩ := h
  · exact mem_walk_of_mem_children h x.mem_walk_self
  · exact mem_walk_of_mem_children hc (mem_walk_of_mem_children h x.mem_walk_self)

/-- A node declares this by itself: one of its steps does, or it is the import that names a module. -/
inductive Introduces (n : Node) : Declaration → Prop
  | script {s : Step} {reach : Reach} {d : Declaration} (hs : s ∈ n.scopeSteps) (hd : .declare reach d ∈ s.deeds) :
    n.Introduces d
  | header {target : ImportTarget} {version : Option String} {qualifier : Ident}
    (hk : n.kind = .importing target version (some qualifier)) :
    n.Introduces ⟨qualifier.name, .import, qualifier.span, n.id⟩

end Node

namespace SymbolTables

open ObjectKey

/-- The objects entered so far. -/
def keys (t : SymbolTables) : List ObjectKey := t.objects.toList.map ObjectValue.key

variable {t : SymbolTables} {object owner : Option Nat}

/-- A change to one of many values, as a view of them shows it. -/
lemma map_modify {α β : Type} {v : α → β} (values : Array α) (i : Nat) (f : α → α) (g : β → β)
    (h : ∀ a, v (f a) = g (v a)) : (values.modify i f).toList.map v = (values.toList.map v).modify i g := by
  apply List.ext_getElem?
  intro j
  rw [Array.toList_modify,List.getElem?_map,List.getElem?_modify,List.getElem?_modify,List.getElem?_map]
  cases values.toList[j]? with
  | none => simp
  | some a =>
    by_cases hij : i = j
    · simp [hij,h]
    · simp [hij]

/-- To say more of a value changes no view that leaves this out. -/
lemma map_modify_same {α β : Type} {v : α → β} (values : Array α) (i : Nat) (f : α → α) (h : ∀ a, v (f a) = v a) :
    (values.modify i f).toList.map v = values.toList.map v := by
  rw [map_modify values i f id h,List.modify_id]

/-- What all rounds of a loop keep, the loop keeps. -/
lemma keeps_foldl {α : Type} {P : SymbolTables → Prop} {f : SymbolTables → α → SymbolTables} {l : List α}
    (h : ∀ x ∈ l, ∀ t, P t → P (f t x)) (ht : P t) : P (l.foldl f t) :=
  List.foldlRecOn l f ht fun t ht x hx => h x hx t ht

lemma view_foldl {α β : Type} {v : SymbolTables → β} {f : SymbolTables → α → SymbolTables} {l : List α}
    (t : SymbolTables) (h : ∀ x ∈ l, ∀ t, v (f t x) = v t) : v (l.foldl f t) = v t :=
  keeps_foldl (P := fun u => v u = v t) (fun x hx u hu => (h x hx u).trans hu) rfl

section keeps

variable {P : SymbolTables → Prop} {n : Node}
  (openScope : ∀ t kind span parent, P t → P (SymbolTables.openScope t kind span parent))

include openScope

/-- What new scopes keep, and the names that nodes at and below this one introduce, the node keeps: a script
enters declarations and scopes, and nothing else. By induction on the size. -/
lemma keeps_script (declare : ∀ x ∈ n.walk, ∀ d, x.Introduces d → ∀ t scope, P t → P (SymbolTables.declare t scope d))
    (c : Surroundings) (ht : P t) : P (t.script c n) := by
  induction hn : sizeOf n using Nat.strongRecOn generalizing c t n with
  | ind size ih =>
    subst hn
    have hdeclare {s : Step} (hs : s ∈ n.scopeSteps) {reach : Reach} {d : Declaration}
        (hd : .declare reach d ∈ s.deeds) (scope : Nat) {t : SymbolTables} (ht : P t) : P (t.declare scope d) :=
      declare n n.mem_walk_self d (.script hs hd) t scope ht
    have hvisit {s : Step} (hs : s ∈ n.scopeSteps) {part : Node} (hd : .visit part ∈ s.deeds) (c : Surroundings)
        {t : SymbolTables} (ht : P t) : P (t.script c part) := by
      have hnear := Node.isNear_of_mem_scopeSteps hs hd
      refine ih _ hnear.sizeOf_lt (fun x hx => declare x ?_) c ht rfl
      exact Node.mem_walk_trans (Node.mem_walk_of_isNear hnear) hx
    rw [script]
    refine keeps_foldl ?_ ht
    rintro ⟨deed | ⟨kind,span,deeds⟩,hstep⟩ - t ht
    · cases deed with
      | declare reach d => exact hdeclare hstep (List.mem_singleton_self _) _ ht
      | visit part => exact hvisit hstep (List.mem_singleton_self _) c ht
    · refine keeps_foldl ?_ (openScope t kind span (some c.scope) ht)
      rintro ⟨deed,hdeed⟩ - t ht
      cases deed with
      | declare reach d => exact hdeclare hstep hdeed _ ht
      | visit part => exact hvisit hstep hdeed _ ht

lemma keeps_binding (declare : ∀ x ∈ n.walk, ∀ d, x.Introduces d → ∀ t scope, P t → P (SymbolTables.declare t scope d))
    (ht : P t) : P (t.binding n) := by
  unfold binding
  split
  · rename_i statements hk
    refine keeps_foldl (fun x hx t => keeps_script openScope (fun y hy => declare y ?_) _) (openScope _ _ _ _ ht)
    exact Node.mem_walk_of_mem_children (by simpa [Node.children,hk,Kind.children] using hx) hy
  · exact keeps_script openScope declare {} ht

end keeps

section views

variable {β : Type} {v : SymbolTables → β} (declare : ∀ t scope d, v (SymbolTables.declare t scope d) = v t)
  (openScope : ∀ t kind span parent, v (SymbolTables.openScope t kind span parent) = v t)

include declare openScope

lemma view_script (c : Surroundings) (t : SymbolTables) (n : Node) : v (t.script c n) = v t :=
  keeps_script (P := fun u => v u = v t) (fun _ _ _ _ => (openScope _ _ _ _).trans)
    (fun _ _ _ _ _ _ => (declare _ _ _).trans) c rfl

lemma view_binding (t : SymbolTables) (statement : Node) : v (t.binding statement) = v t :=
  keeps_binding (P := fun u => v u = v t) (fun _ _ _ _ => (openScope _ _ _ _).trans)
    (fun _ _ _ _ _ _ => (declare _ _ _).trans) rfl

end views

/-- A binding may name the object that it stands in. A view that leaves names out does not change with it. -/
lemma view_naming {β : Type} {v : SymbolTables → β} (h : ∀ t i statement, v (SymbolTables.bindId t i statement) = v t)
    (t : SymbolTables) (object : Option Nat) (name : QualifiedName) (statement : Node) :
    v (match object with
      | some i => if name.joined == "id" then t.bindId i statement else t
      | none => t) = v t := by
  cases object with
  | none => rfl
  | some i =>
    simp only
    split
    · exact h t i statement
    · rfl

/-! Scripts and members enter no objects. -/

lemma keys_script (c : Surroundings) (t : SymbolTables) (n : Node) : (t.script c n).keys = t.keys :=
  view_script (v := keys) (fun _ _ _ => rfl) (fun _ _ _ _ => rfl) c t n

lemma keys_binding (t : SymbolTables) (statement : Node) : (t.binding statement).keys = t.keys :=
  view_binding (v := keys) (fun _ _ _ => rfl) (fun _ _ _ _ => rfl) t statement

lemma keys_addMember (t : SymbolTables) (object : Option Nat) (name : String) (kind : ObjectMemberKind)
    (n : Node) : (t.addMember object name kind n).keys = t.keys := by
  unfold addMember
  cases object with
  | none => rfl
  | some i => exact map_modify_same _ _ _ fun _ => rfl

/-- A binding of an `id` is reported, and may give the object that it stands in a name. -/
lemma bindId_cases (t : SymbolTables) (object : Nat) (statement : Node) :
    ∃ faults, t.bindId object statement = { t with faults } ∨
      ∃ name, t.bindId object statement = { t with
        ids := t.ids.insert name object
        objects := t.objects.modify object fun o => { o with id := some name }
        faults } := by
  unfold bindId
  split
  · exact ⟨_,.inl rfl⟩
  split
  · exact ⟨_,.inl rfl⟩
  · rename_i name _ _
    refine ⟨(t.nameObject object statement.span.start name).faults,.inr ⟨name,?_⟩⟩
    unfold nameObject
    dsimp only
    split <;> split <;> rfl

lemma keys_bindId (t : SymbolTables) (object : Nat) (statement : Node) :
    (t.bindId object statement).keys = t.keys := by
  obtain ⟨faults,h | ⟨name,h⟩⟩ := t.bindId_cases object statement <;> rw [h]
  · rfl
  · exact map_modify_same _ _ _ fun _ => rfl

lemma keys_header (t : SymbolTables) (n : Node) : (t.header n).keys = t.keys := by
  unfold header
  split <;> rfl

/-- An object is entered behind the others. -/
lemma keys_addObject (t : SymbolTables) (node : Nat) (typeName : String) (parent : Option Nat) :
    (t.addObject node typeName parent).2.keys = t.keys ++ [⟨node, typeName, parent⟩] := by
  unfold addObject
  cases parent with
  | none => simp [keys,ObjectValue.key]
  | some p =>
    unfold keys
    rw [map_modify_same]
    · simp [ObjectValue.key]
    · exact fun _ => rfl

lemma number_addObject (t : SymbolTables) (node : Nat) (typeName : String) (parent : Option Nat) :
    (t.addObject node typeName parent).1 = t.keys.length := by
  simp [addObject,keys]

/-! Nodes that are no objects hand on to what hangs below them. -/

lemma foldl_attach_member (members : List Node) (t : SymbolTables) :
    (members.attach.foldl (fun t ⟨m, _⟩ => t.member object m) t) = members.foldl (member object) t :=
  List.foldl_attach

/-- Where there are no objects, none are entered. -/
lemma keys_member_of_quiet {n : Node} (h : n.Quiet) (object : Option Nat) (t : SymbolTables) :
    (member object t n).keys = t.keys := by
  induction n using Node.walk.induct generalizing t with
  | case1 n ih =>
    have hfold {members : List Node} (hmembers : ∀ c ∈ members, c ∈ n.children) (t : SymbolTables) :
        (members.foldl (member object) t).keys = t.keys := by
      apply view_foldl (v := keys)
      intro c hc t
      exact ih c (hmembers c hc) (h.child (hmembers c hc)) t
    have hnone := h.none
    obtain ⟨id,span,kind⟩ := n
    rw [member]
    cases kind
    case objectDefinition => cases hnone
    case objectBinding => cases hnone
    case document headers members =>
      simp only [Node.kind,foldl_attach_member]
      rw [hfold fun c hc => List.mem_append_right headers hc]
      exact view_foldl (v := keys) t fun x _ t => keys_header t x
    case objectInitializer members =>
      simp only [Node.kind,foldl_attach_member]
      exact hfold (fun c hc => hc) t
    case arrayBinding name members brackets =>
      simp only [Node.kind,foldl_attach_member]
      refine (hfold (fun c (hc : c ∈ members) => hc) _).trans ?_
      exact keys_addMember t object _ _ _
    case publicMember m =>
      simp only [Node.kind,foldl_attach_member]
      rw [hfold fun c hc => List.mem_append_right m.statement.toList hc,
        view_foldl (v := keys) _ fun x _ t => keys_binding t x]
      exact keys_addMember t object _ _ _
    case scriptBinding name statement =>
      simp only [Node.kind]
      rw [keys_binding,keys_addMember]
      exact view_naming (v := keys) keys_bindId t object name statement
    case sourceElement element =>
      simp only [Node.kind]
      rw [keys_script]
      exact view_foldl (v := keys) t fun x _ t => keys_addMember t object _ _ _
    case enumDeclaration => exact keys_addMember t object _ _ _
    case importing => exact keys_header t _
    case pragma => exact keys_header t _
    all_goals exact keys_script {} t _

/-- Parts that enter their objects one after the other. -/
lemma adds_foldl {α : Type} {f : SymbolTables → α → SymbolTables} {g : α → List ObjectEntry} {l : List α}
    (h : ∀ x ∈ l, ∀ t : SymbolTables, Stands t.keys object owner → Adds t.keys (g x) (f t x).keys)
    (hstands : Stands t.keys object owner) : Adds t.keys (l.flatMap g) (l.foldl f t).keys := by
  induction l generalizing t with
  | nil => exact .refl _
  | cons x l ih =>
    have hx := h x List.mem_cons_self t hstands
    have hl := ih (fun y hy => h y (List.mem_cons_of_mem _ hy)) (hstands.later hx)
    exact hx.trans hl

/-- An object is entered, and then the objects in its braces. -/
lemma adds_object {n init : Node} {typeName : String} (hbody : init.kind.isBody)
    (hmembers : ∀ c ∈ init.children, ∀ (t : SymbolTables) (object owner : Option Nat),
      Stands t.keys object owner → Adds t.keys (c.entries owner) (member object t c).keys)
    (hstands : Stands t.keys object owner) :
    Adds t.keys (⟨n.id, typeName, owner⟩ :: init.children.flatMap (Node.entries (some n.id)))
      (member (some (t.addObject n.id typeName object).1) (t.addObject n.id typeName object).2 init).keys := by
  have hpush : Adds t.keys [⟨n.id, typeName, owner⟩] (t.addObject n.id typeName object).2.keys := by
    rw [keys_addObject,← hstands.node]
    exact Adds.push (k := ⟨n.id, typeName, object⟩) hstands.lt
  have hself : Stands (t.addObject n.id typeName object).2.keys
      (some (t.addObject n.id typeName object).1) (some n.id) := by
    rw [keys_addObject,number_addObject]
    refine ⟨by simp,?_⟩
    simp [nodeAt]
  apply hpush.trans
  obtain ⟨id,span,kind⟩ := init
  cases kind
  case objectInitializer members =>
    rw [member]
    simp only [Node.kind,foldl_attach_member]
    exact adds_foldl (fun c hc t h => hmembers c hc t _ _ h) hself
  case error =>
    rw [member]
    simp only [Node.kind]
    rw [keys_script]
    exact .refl _
  all_goals cases hbody

/-- The objects at and below a member are entered in the order in which they start. -/
theorem adds_member {n : Node} (h : n.Orderly) (t : SymbolTables) (object owner : Option Nat)
    (hstands : Stands t.keys object owner) : Adds t.keys (n.entries owner) (member object t n).keys := by
  induction h generalizing t object owner with
  | quiet h =>
    rw [keys_member_of_quiet h,h.entries]
    exact .refl _
  | @object n f hf body members ih =>
    rw [Node.entries_of_body owner hf body]
    obtain ⟨id,span,kind⟩ := n
    cases kind
    case objectDefinition typeName init =>
      cases hf
      rw [member]
      simp only [Node.kind]
      exact adds_object body ih hstands
    case objectBinding name typeName init on =>
      cases hf
      rw [member]
      simp only [Node.kind]
      rw [← keys_addMember t object name.joined .objectBinding] at hstands ⊢
      exact adds_object body ih hstands
    all_goals cases hf
  | @array n name members brackets hk objects below ih =>
    obtain ⟨id,span,kind⟩ := n
    cases hk
    rw [member,Node.entries_of_none owner rfl]
    simp only [Node.kind,foldl_attach_member]
    rw [← keys_addMember t object name.joined .arrayBinding (.mk id span (.arrayBinding name members brackets))]
      at hstands ⊢
    exact adds_foldl (fun c hc t h => ih c hc t _ _ h) hstands
  | @declared n b m hk property statement binding value below declares ih =>
    obtain ⟨id,span,kind⟩ := n
    cases hk
    have hchildren : (Node.mk id span (.publicMember m)).children = [b] := by
      simp [Node.children,Node.kind,Kind.children,statement,binding]
    rw [member,Node.entries_of_none owner rfl,hchildren,List.flatMap_singleton]
    simp only [Node.kind,foldl_attach_member,statement,binding,Option.toList_none,Option.toList_some,
      List.foldl_nil,List.foldl_cons]
    rw [← keys_addMember t object m.name.name (declaredKind m) (.mk id span (.publicMember m))] at hstands ⊢
    exact ih _ _ _ hstands

/-- The tables of a document hold its objects in the order in which they start. -/
theorem adds_ofRoot {root : Node} (h : root.Rooted) : Adds [] (root.entries none) (ofRoot root).keys := by
  cases h with
  | @mk headers members hk quiet single objects below =>
    obtain ⟨id,span,kind⟩ := root
    cases hk
    unfold ofRoot
    rw [member,Node.entries_of_none none rfl]
    simp only [Node.kind,foldl_attach_member]
    have hheaders : headers.flatMap (Node.entries none) = [] := by
      rw [List.flatMap_eq_nil_iff]
      intro c hc
      exact (quiet c hc).entries none
    have hblank (t : SymbolTables) : (headers.foldl header t).keys = t.keys :=
      view_foldl (v := keys) t fun x _ t => keys_header t x
    have hmembers (t : SymbolTables) : Adds t.keys (members.flatMap (Node.entries none))
        (members.foldl (member none) t).keys := by
      apply adds_foldl
      · intro c hc t hstands
        exact adds_member (below c hc) t none none hstands
      · exact ⟨by simp,rfl⟩
    have hall := hmembers (headers.foldl header (openScope {} .global span none))
    rw [hblank] at hall
    change Adds [] ((headers ++ members).flatMap _) _
    rw [List.flatMap_append,hheaders,List.nil_append]
    exact hall

end SymbolTables

end QmlCodeModel
