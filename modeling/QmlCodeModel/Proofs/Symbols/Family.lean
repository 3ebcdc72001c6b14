import Mathlib.Data.List.Infix
import Mathlib.Data.Set.Function
import QmlCodeModel.Proofs.Grammar.Objects
import QmlCodeModel.Proofs.Symbols.Bounds
import QmlCodeModel.Proofs.Symbols.Members

/-! The objects of a document as one tree. Each object knows the one that it is in and those that are in it, the
numbers go through the tree in pre-order, and the members of an object are those in its braces. -/
namespace QmlCodeModel

/-! Numbers that stand below earlier ones or below none, the parents of all in a list. -/

/-- Each number comes behind its parent, and between the two is nothing but what is in the parent. -/
structure PreOrder (parents : List (Option Nat)) : Prop where
  lt : ∀ i p : Nat, parents[i]? = some (some p) → p < i
  between : ∀ i p j : Nat, parents[i]? = some (some p) → p < j → j < i → ∃ q ≥ p, parents[j]? = some (some q)

/-- What comes behind a number is in it, and more may follow. -/
structure Around (parents : List (Option Nat)) (p : Nat) : Prop where
  lt : p < parents.length
  behind : ∀ j, p < j → j < parents.length → ∃ q ≥ p, parents[j]? = some (some q)

/-- The numbers that have this one as their parent. -/
def childrenOf (parents : List (Option Nat)) (p : Nat) : List Nat :=
  (List.range parents.length).filter fun i => parents[i]? = some (some p)

section

variable {parents later : List (Option Nat)} {object : Option Nat} {p i : Nat}

lemma mem_childrenOf : i ∈ childrenOf parents p ↔ parents[i]? = some (some p) := by
  simp only [childrenOf,List.mem_filter,List.mem_range,decide_eq_true_eq,and_iff_right_iff_imp]
  exact fun h => (List.getElem?_eq_some_iff.mp h).1

lemma nodup_childrenOf (parents : List (Option Nat)) (p : Nat) : (childrenOf parents p).Nodup :=
  List.nodup_range.filter _

lemma childrenOf_push (parents : List (Option Nat)) (object : Option Nat) (p : Nat) :
    childrenOf (parents ++ [object]) p =
      childrenOf parents p ++ if object = some p then [parents.length] else [] := by
  unfold childrenOf
  rw [List.length_append,List.length_singleton,List.range_succ,List.filter_append,List.filter_singleton,
    List.getElem?_concat_length]
  congr 1
  · refine List.filter_congr fun i hi => ?_
    rw [List.getElem?_append_left (List.mem_range.mp hi)]
  · simp

/-- Nothing is in a number that is still to come. -/
lemma PreOrder.childrenOf_length (h : PreOrder parents) : childrenOf parents parents.length = [] := by
  refine List.eq_nil_iff_forall_not_mem.mpr fun i hi => ?_
  have hi := mem_childrenOf.mp hi
  have := h.lt i _ hi
  have := (List.getElem?_eq_some_iff.mp hi).1
  omega

lemma PreOrder.push (h : PreOrder parents) (hobject : ∀ p ∈ object, Around parents p) :
    PreOrder (parents ++ [object]) := by
  have hcases {i p : Nat} (hi : (parents ++ [object])[i]? = some (some p)) :
      parents[i]? = some (some p) ∨ i = parents.length ∧ object = some p := by
    obtain hlt | hge := Nat.lt_or_ge i parents.length
    · exact .inl (List.getElem?_append_left hlt ▸ hi)
    · rw [List.getElem?_append_right hge,List.getElem?_singleton] at hi
      split at hi
      · exact .inr ⟨by omega,Option.some.inj hi⟩
      · cases hi
  refine ⟨fun i p hi => ?_,fun i p j hi hpj hji => ?_⟩
  · obtain hi | ⟨rfl,rfl⟩ := hcases hi
    · exact h.lt i p hi
    · exact (hobject p rfl).lt
  · obtain hi | ⟨rfl,rfl⟩ := hcases hi
    · rw [List.getElem?_append_left (Nat.lt_trans hji (List.getElem?_eq_some_iff.mp hi).1)]
      exact h.between i p j hi hpj hji
    · rw [List.getElem?_append_left hji]
      exact (hobject p rfl).behind j hpj hji

lemma Around.last (parents : List (Option Nat)) (object : Option Nat) :
    Around (parents ++ [object]) parents.length := by
  refine ⟨by simp,fun j hj hlt => ?_⟩
  rw [List.length_append,List.length_singleton] at hlt
  omega

/-- What is in a number that is in another one is in that one too. -/
lemma Around.out (h : Around parents p) (hinner : Around (parents ++ [some p] ++ later) parents.length) :
    Around (parents ++ [some p] ++ later) p := by
  refine ⟨Nat.lt_trans h.lt hinner.lt,fun j hpj hj => ?_⟩
  obtain hlt | rfl | hgt := Nat.lt_trichotomy j parents.length
  · rw [List.append_assoc,List.getElem?_append_left hlt]
    exact h.behind j hpj hlt
  · exact ⟨p,Nat.le_refl p,by simp⟩
  · obtain ⟨q,hq,hj⟩ := hinner.behind j hgt hj
    exact ⟨q,Nat.le_trans (Nat.le_of_lt h.lt) hq,hj⟩

/-- Only the first number has no parent, where all others are in it. -/
lemma Around.parent_eq_none_iff (h : Around parents 0) (hfirst : parents[0]? = some none)
    (hi : parents[i]? = some object) : object = none ↔ i = 0 := by
  obtain rfl | hpos := Nat.eq_zero_or_pos i
  · exact iff_of_true (Option.some.inj (hi.symm.trans hfirst)) rfl
  · obtain ⟨q,-,hq⟩ := h.behind i hpos (List.getElem?_eq_some_iff.mp hi).1
    have hparent := Option.some.inj (hi.symm.trans hq)
    exact iff_of_false (by simp [hparent]) (Nat.ne_of_gt hpos)

end

lemma modify_append_left {α : Type} (xs ys : List α) {i : Nat} (hi : i < xs.length) (f : α → α) :
    (xs ++ ys).modify i f = xs.modify i f ++ ys := by
  rw [List.modify_eq_take_drop,List.modify_eq_take_drop,List.take_append_of_le_length (Nat.le_of_lt hi),
    List.drop_append_of_le_length (Nat.le_of_lt hi),List.append_assoc]
  cases h : xs.drop i with
  | nil => exact absurd (List.drop_eq_nil_iff.mp h) (Nat.not_le.mpr hi)
  | cons x rest => rfl

/-- The objects entered so far, with the parents, the children and the members of each. -/
@[ext] structure Family where
  parents : List (Option Nat)
  children : List (List Nat)
  rosters : List (Nat × List ObjectMember)

namespace Family

/-- Enters an object behind the others. -/
def enter (F : Family) (node : Nat) (object : Option Nat) : Family where
  parents := F.parents ++ [object]
  children := object.elim id (fun p => (List.modify · p (· ++ [F.parents.length]))) (F.children ++ [[]])
  rosters := F.rosters ++ [(node,[])]

/-- Enters members of an object. -/
def give (F : Family) (object : Option Nat) (members : List ObjectMember) : Family :=
  { F with rosters := object.elim id (fun i => (List.modify · i fun r => (r.1,r.2 ++ members))) F.rosters }

/-- The objects are in pre-order and know their children, and what is entered next may stand in this object. -/
structure Accepts (F : Family) (object : Option Nat) : Prop where
  preOrder : PreOrder F.parents
  children : F.children = (List.range F.parents.length).map (childrenOf F.parents)
  rosters : F.rosters.length = F.parents.length
  around : ∀ p ∈ object, Around F.parents p

/-- Members have been entered into an object, and objects with all their members behind the others. -/
structure Adds (F : Family) (object : Option Nat) (members : List ObjectMember)
    (bodies : List (Nat × List ObjectMember)) (F' : Family) : Prop where
  accepts : F'.Accepts object
  parents : ∃ later, F'.parents = F.parents ++ later
  rosters : F'.rosters = (F.give object members).rosters ++ bodies

variable {F F' F'' : Family} {object : Option Nat} {members members' : List ObjectMember}
  {bodies bodies' : List (Nat × List ObjectMember)}

lemma give_nil (F : Family) (object : Option Nat) : F.give object [] = F := by
  cases object with
  | none => rfl
  | some i =>
    simp only [give,Option.elim_some,List.append_nil]
    exact congrArg (Family.mk _ _) (List.modify_id i F.rosters)

lemma give_give (F : Family) (object : Option Nat) (members members' : List ObjectMember) :
    (F.give object members).give object members' = F.give object (members ++ members') := by
  cases object with
  | none => rfl
  | some i => simp [give,List.modify_modify_eq,Function.comp_def]

namespace Accepts

lemma give (h : F.Accepts object) (members : List ObjectMember) : (F.give object members).Accepts object := by
  refine ⟨h.preOrder,h.children,?_,h.around⟩
  rw [← show F.rosters.length = (F.give object members).parents.length from h.rosters]
  cases object with
  | none => rfl
  | some i => exact List.length_modify ..

lemma enter (h : F.Accepts object) (node : Nat) : (F.enter node object).Accepts (some F.parents.length) := by
  refine ⟨h.preOrder.push h.around,?_,?_,?_⟩
  · have hlast : (List.range (F.parents.length + 1)).map (childrenOf F.parents) = F.children ++ [[]] := by
      rw [List.range_succ,List.map_append,List.map_singleton,h.preOrder.childrenOf_length,h.children]
    rw [Family.enter,← hlast,List.length_append,List.length_singleton]
    cases object with
    | none => simp [childrenOf_push]
    | some p =>
      refine List.ext_getElem? fun j => ?_
      simp only [Option.elim_some,List.getElem?_modify,List.getElem?_map]
      cases hj : (List.range (F.parents.length + 1))[j]? with
      | none => rfl
      | some k =>
        obtain ⟨-,rfl⟩ := List.getElem?_eq_some_iff.mp hj
        simp only [Option.map_some,List.getElem_range,childrenOf_push]
        by_cases hpj : p = j <;> simp [hpj]
  · simp [Family.enter,h.rosters]
  · rintro p ⟨⟩
    exact Around.last F.parents object

end Accepts

namespace Adds

lemma give (h : F.Accepts object) (members : List ObjectMember) :
    F.Adds object members [] (F.give object members) :=
  ⟨h.give members,⟨[],(List.append_nil _).symm⟩,(List.append_nil _).symm⟩

lemma trans (hF : F.Accepts object) (h : F.Adds object members bodies F')
    (h' : F'.Adds object members' bodies' F'') : F.Adds object (members ++ members') (bodies ++ bodies') F'' := by
  obtain ⟨later,hlater⟩ := h.parents
  obtain ⟨later',hlater'⟩ := h'.parents
  refine ⟨h'.accepts,⟨later ++ later',by rw [hlater',hlater,List.append_assoc]⟩,?_⟩
  rw [h'.rosters,← give_give,← List.append_assoc]
  congr 1
  cases object with
  | none => exact h.rosters
  | some i =>
    have hi : i < (F.give (some i) members).rosters.length := by
      rw [(hF.give members).rosters]
      exact (hF.around i rfl).lt
    simp only [Family.give,Option.elim_some,h.rosters] at hi ⊢
    exact modify_append_left _ _ hi _

/-- An object is entered, and then what is in it. -/
lemma inner {node : Nat} (h : F.Accepts object)
    (hinner : (F.enter node object).Adds (some F.parents.length) members bodies F') :
    F.Adds object [] ((node,members) :: bodies) F' := by
  obtain ⟨later,hlater⟩ := hinner.parents
  refine ⟨⟨hinner.accepts.preOrder,hinner.accepts.children,hinner.accepts.rosters,?_⟩,?_,?_⟩
  · rintro p ⟨⟩
    have haround := hinner.accepts.around _ rfl
    rw [hlater] at haround ⊢
    exact (h.around p rfl).out haround
  · exact ⟨[object] ++ later,by rw [hlater,Family.enter,List.append_assoc]⟩
  · rw [hinner.rosters,give_nil,← h.rosters]
    simp [Family.enter,Family.give,List.modify_eq_take_drop]

end Adds

end Family

namespace SymbolTables

open Family

def family (t : SymbolTables) : Family where
  parents := t.objects.toList.map ObjectValue.parent
  children := t.objects.toList.map ObjectValue.children
  rosters := t.objects.toList.map fun o => (o.node,o.members)

variable {t : SymbolTables} {object : Option Nat}

lemma length_parents (t : SymbolTables) : t.family.parents.length = t.keys.length := by
  simp [family,keys]

lemma family_script (c : Surroundings) (t : SymbolTables) (n : Node) : (t.script c n).family = t.family :=
  view_script (v := family) (fun _ _ _ => rfl) (fun _ _ _ _ => rfl) c t n

lemma family_binding (t : SymbolTables) (statement : Node) : (t.binding statement).family = t.family :=
  view_binding (v := family) (fun _ _ _ => rfl) (fun _ _ _ _ => rfl) t statement

lemma family_header (t : SymbolTables) (n : Node) : (t.header n).family = t.family := by
  unfold header
  split <;> rfl

lemma family_bindId (t : SymbolTables) (i : Nat) (statement : Node) :
    (t.bindId i statement).family = t.family := by
  obtain ⟨faults,h | ⟨name,h⟩⟩ := t.bindId_cases i statement <;> rw [h]
  · rfl
  · ext1 <;> exact map_modify_same _ _ _ fun _ => rfl

lemma family_addMember (t : SymbolTables) (object : Option Nat) (name : String) (kind : ObjectMemberKind)
    (n : Node) : (t.addMember object name kind n).family = t.family.give object [⟨name, kind, n.id, n.span⟩] := by
  cases object with
  | none => rfl
  | some i =>
    ext1
    case parents => exact map_modify_same _ _ _ fun _ => rfl
    case children => exact map_modify_same _ _ _ fun _ => rfl
    case rosters => exact map_modify _ _ _ _ fun _ => rfl

lemma family_addMembers (object : Option Nat) (members : List (String × ObjectMemberKind × Node))
    (t : SymbolTables) : (members.foldl (fun t e => t.addMember object e.1 e.2.1 e.2.2) t).family =
      t.family.give object (members.map fun e => ⟨e.1, e.2.1, e.2.2.id, e.2.2.span⟩) := by
  induction members generalizing t with
  | nil => exact (give_nil _ _).symm
  | cons m members ih =>
    rw [List.foldl_cons,ih,family_addMember,give_give]
    rfl

lemma family_addObject (t : SymbolTables) (node : Nat) (typeName : String) (parent : Option Nat) :
    (t.addObject node typeName parent).2.family = t.family.enter node parent := by
  cases parent with
  | none => simp [addObject,family,enter]
  | some p =>
    let entered := t.objects.push { node, typeName, parent := some p, grouped := startsLowercase typeName }
    let child (o : ObjectValue) := { o with children := o.children ++ [t.objects.size] }
    ext1
    case parents => exact (map_modify_same entered p child fun _ => rfl).trans (by simp [entered,enter,family])
    case children =>
      refine (map_modify entered p child (· ++ [t.objects.size]) fun _ => rfl).trans ?_
      simp [entered,enter,family]
    case rosters => exact (map_modify_same entered p child fun _ => rfl).trans (by simp [entered,enter,family])

/-- An object is entered with what it is a member as, and then what is in its braces. -/
lemma member_of_object {n : Node} {f : ObjectForm} (hf : n.objectForm? = some f) (object : Option Nat)
    (t : SymbolTables) : ∃ u, u.family = (t.family.give object n.ownMembers).enter n.id object ∧
      member object t n = member (some t.keys.length) u f.initializer := by
  obtain ⟨id,span,kind⟩ := n
  rw [member]
  cases kind
  case objectDefinition typeName init =>
    cases hf
    refine ⟨(t.addObject id typeName.joined object).2,?_,?_⟩
    · rw [family_addObject]
      exact congrArg (enter · id object) (give_nil _ _).symm
    · rw [← number_addObject t id typeName.joined object]
      rfl
  case objectBinding name typeName init on =>
    cases hf
    let u := t.addMember object name.joined .objectBinding (.mk id span (.objectBinding name typeName init on))
    refine ⟨(u.addObject id typeName.joined object).2,?_,?_⟩
    · rw [family_addObject,family_addMember]
      rfl
    · have hkeys : u.keys = t.keys := keys_addMember t object _ _ _
      rw [← hkeys,← number_addObject u id typeName.joined object]
      rfl
  all_goals cases hf

/-- Any other node is entered as the members that it is, and then what hangs below it. -/
lemma member_of_none {n : Node} (hnone : n.objectForm? = none) (object : Option Nat) (t : SymbolTables) :
    ∃ u, u.family = t.family.give object n.ownMembers ∧
      member object t n = n.memberParts.foldl (member object) u := by
  have hscripts {u : SymbolTables} {nodes : List Node} : (nodes.foldl binding u).family = u.family :=
    view_foldl (v := family) u fun x _ u => family_binding u x
  have hheaders {u : SymbolTables} {nodes : List Node} : (nodes.foldl header u).family = u.family :=
    view_foldl (v := family) u fun x _ u => family_header u x
  obtain ⟨id,span,kind⟩ := n
  rw [member]
  cases kind
  case objectDefinition => cases hnone
  case objectBinding => cases hnone
  case document headers members =>
    refine ⟨headers.foldl header t,hheaders.trans (give_nil _ _).symm,?_⟩
    simp only [Node.kind,foldl_attach_member]
    rfl
  case objectInitializer members =>
    refine ⟨t,(give_nil _ _).symm,?_⟩
    simp only [Node.kind,foldl_attach_member]
    rfl
  case arrayBinding name members brackets =>
    refine ⟨_,family_addMember t object _ _ _,?_⟩
    simp only [Node.kind,foldl_attach_member]
    rfl
  case publicMember m =>
    refine ⟨m.statement.toList.foldl binding _,hscripts.trans (family_addMember t object _ _ _),?_⟩
    simp only [Node.kind,foldl_attach_member]
    rfl
  case scriptBinding name statement =>
    refine ⟨_,(family_binding _ statement).trans ((family_addMember _ object _ _ _).trans ?_),rfl⟩
    exact congrArg (give · object _) (view_naming (v := family) family_bindId t object name statement)
  case sourceElement element =>
    refine ⟨_,(family_script {} _ element).trans ?_,rfl⟩
    exact family_addMembers object (sourceMembers element) t
  case enumDeclaration => exact ⟨_,family_addMember t object _ _ _,rfl⟩
  case importing => exact ⟨_,(family_header t _).trans (give_nil _ _).symm,rfl⟩
  case pragma => exact ⟨_,(family_header t _).trans (give_nil _ _).symm,rfl⟩
  all_goals exact ⟨_,(family_script {} t _).trans (give_nil _ _).symm,rfl⟩

lemma family_foldl_member {nodes : List Node} (h : ∀ c ∈ nodes, ∀ t : SymbolTables, t.family.Accepts object →
      t.family.Adds object c.entered c.bodies (member object t c).family) (ht : t.family.Accepts object) :
    t.family.Adds object (nodes.flatMap Node.entered) (nodes.flatMap Node.bodies)
      (nodes.foldl (member object) t).family := by
  induction nodes generalizing t with
  | nil =>
    have hnone := Adds.give ht []
    rwa [give_nil] at hnone
  | cons c nodes ih =>
    have hc := h c List.mem_cons_self t ht
    exact hc.trans ht (ih (fun d hd => h d (List.mem_cons_of_mem _ hd)) hc.accepts)

/-- What is in the braces of an object joins behind it. -/
lemma family_braces {n : Node} {f : ObjectForm} (hf : n.objectForm? = some f) (ht : t.family.Accepts object)
    (hinit : ∀ (object : Option Nat) (t : SymbolTables), t.family.Accepts object →
      t.family.Adds object f.initializer.entered f.initializer.bodies (member object t f.initializer).family) :
    ((t.family.give object n.ownMembers).enter n.id object).Adds (some t.family.parents.length)
      f.initializer.entered f.initializer.bodies (member object t n).family := by
  obtain ⟨u,hu,heq⟩ := member_of_object hf object t
  have hself := (ht.give n.ownMembers).enter n.id
  rw [heq,length_parents,← hu]
  refine hinit _ u ?_
  rw [hu,← length_parents]
  exact hself

/-- By induction on the tree: what hangs below a node joins the objects that have been entered. -/
theorem family_member (n : Node) (object : Option Nat) (t : SymbolTables) (ht : t.family.Accepts object) :
    t.family.Adds object n.entered n.bodies (member object t n).family := by
  induction n using Node.walk.induct generalizing object t with
  | case1 n ih =>
    have hown := Adds.give ht n.ownMembers
    rw [Node.entered_eq,Node.bodies_eq,Node.isQmlObject_eq,Node.body?]
    cases hf : n.objectForm? with
    | none =>
      obtain ⟨u,hu,heq⟩ := member_of_none hf object t
      rw [heq]
      rw [← hu] at hown
      refine hown.trans ht (family_foldl_member (fun c hc => ?_) hown.accepts)
      exact ih c (n.memberParts_sublist.subset hc) object
    | some f =>
      have hinit := ih f.initializer (Node.initializer_mem_children hf)
      rw [Node.memberParts_of_objectForm hf,List.flatMap_singleton,List.flatMap_singleton]
      have hobject := hown.trans ht (Adds.inner hown.accepts (family_braces hf ht hinit))
      exact hobject

lemma accepts_blank : (Family.mk [] [] []).Accepts none := ⟨⟨by simp,by simp⟩,rfl,rfl,by simp⟩

/-- The objects of any tree are in pre-order, and have the members that stand in their braces. -/
lemma accepts_ofRoot (root : Node) :
    (ofRoot root).family.Accepts none ∧ (ofRoot root).family.rosters = root.bodies := by
  have hadds := family_member root none (openScope {} .global root.span none) accepts_blank
  exact ⟨hadds.accepts,hadds.rosters⟩

lemma map_rosters (t : SymbolTables) : t.family.rosters.map Prod.fst = t.nodes := by
  simp [family,nodes,Function.comp_def]

/-- All objects of a document are below the first one, which stands outside all. -/
lemma first_ofRoot {p : Parse} (h : p.root.Rooted) :
    p.rootObject? = none ∧ (ofRoot p.root).family.parents = [] ∨
      ∃ c, p.rootObject? = some c ∧ (ofRoot p.root).nodes.head? = some c.id ∧
        (ofRoot p.root).family.parents[0]? = some none ∧ Around (ofRoot p.root).family.parents 0 := by
  cases h with
  | @mk headers members hk quiet single objects below =>
    have hnone : p.root.objectForm? = none := by rw [Node.objectForm?,hk]
    obtain ⟨u,hu,heq⟩ := member_of_none hnone none (openScope {} .global p.root.span none)
    have hblank : u.family = ⟨[],[],[]⟩ := hu
    rw [← ofRoot,Node.memberParts,hk] at heq
    rw [heq,Parse.rootObject?,hk]
    cases members with
    | nil => exact .inl ⟨rfl,congrArg parents hblank⟩
    | cons c rest =>
      obtain rfl : rest = [] := by simpa using single
      have hobject := objects c (List.mem_singleton_self c)
      obtain ⟨f,hf⟩ := Option.isSome_iff_exists.mp hobject
      have hu : u.family.Accepts none := hblank ▸ accepts_blank
      obtain ⟨haccepts,⟨later,hlater⟩,hrosters⟩ := family_braces hf hu (family_member f.initializer)
      rw [hblank] at haccepts hlater hrosters
      refine .inr ⟨c,?_,?_,?_,haccepts.around 0 rfl⟩
      · simp [Node.isQmlObject_eq,hobject]
      · rw [← map_rosters]
        exact (congrArg (fun r => (r.map Prod.fst).head?) hrosters).trans rfl
      · exact (congrArg (fun l => l[0]?) hlater).trans rfl

variable {i : Nat} {v : ObjectValue}

lemma getElem?_parents (hv : t.objects[i]? = some v) : t.family.parents[i]? = some v.parent := by
  simp [family,hv]

lemma children_of_accepts (h : t.family.Accepts object) (hv : t.objects[i]? = some v) :
    v.children = childrenOf t.family.parents i := by
  have hchildren : t.family.children[i]? = some v.children := by simp [family,hv]
  rw [h.children,List.getElem?_map,List.getElem?_range] at hchildren
  · exact (Option.some.inj hchildren).symm
  · exact (List.getElem?_eq_some_iff.mp (getElem?_parents hv)).1

/-- The objects of a document are the nodes of its objects, in the order in which they start. -/
lemma nodes_ofRoot {root : Node} (h : root.Rooted) :
    (ofRoot root).nodes = (root.walk.filter (·.kind.isQmlObject)).map Node.id := by
  rw [← map_rosters,(accepts_ofRoot root).2,h.bodies]
  induction root.walk with
  | nil => rfl
  | cons x nodes ih =>
    rw [List.filterMap_cons,List.filter_cons,Node.isQmlObject_eq,Node.body?]
    cases x.objectForm? with
    | none => exact ih
    | some f => exact congrArg (x.id :: ·) ih

lemma exists_of_mem_nodes {node : Nat} (h : node ∈ t.nodes) :
    ∃ (i : Nat) (v : ObjectValue), t.objects[i]? = some v ∧ v.node = node := by
  obtain ⟨v,hv,hnode⟩ := List.mem_map.mp h
  obtain ⟨i,hi⟩ := List.mem_iff_getElem?.mp hv
  exact ⟨i,v,Array.getElem?_toList ▸ hi,hnode⟩

lemma mem_nodes (hv : t.objects[i]? = some v) : v.node ∈ t.nodes :=
  List.mem_map_of_mem (Array.mem_def.mp (Array.mem_of_getElem? hv))

/-- Where no two nodes of a tree have the same number, its objects are found from their nodes, one from each. -/
lemma bijOn_objectOf? {root : Node} (hids : (root.walk.map Node.id).Nodup) (hnodup : t.nodes.Nodup)
    (hnodes : t.nodes = (root.walk.filter (·.kind.isQmlObject)).map Node.id) :
    Set.BijOn (fun x : Node => t.objectOf? x.id) {x | x ∈ root.walk ∧ x.kind.isQmlObject}
      {o | ∃ i < t.objects.size, o = some i} := by
  have hmem {x : Node} (hx : x ∈ root.walk ∧ x.kind.isQmlObject) :
      ∃ (i : Nat) (v : ObjectValue), t.objects[i]? = some v ∧ v.node = x.id :=
    exists_of_mem_nodes (hnodes ▸ List.mem_map_of_mem (List.mem_filter.mpr hx))
  refine ⟨fun x hx => ?_,fun x hx y hy hsame => ?_,?_⟩
  · obtain ⟨i,v,hv,hnode⟩ := hmem hx
    have hi : t.objectOf? x.id = some i := hnode ▸ objectOf?_eq_some hnodup hv
    exact ⟨i,(Array.getElem?_eq_some_iff.mp hv).1,hi⟩
  · obtain ⟨i,v,hv,hnode⟩ := hmem hx
    have hi : t.objectOf? x.id = some i := hnode ▸ objectOf?_eq_some hnodup hv
    have hid : x.id = y.id := hnode.symm.trans (node_of_objectOf? (hsame.symm.trans hi) hv)
    exact List.inj_on_of_nodup_map hids hx.1 hy.1 hid
  · rintro _ ⟨i,hi,rfl⟩
    have hv := Array.getElem?_eq_getElem hi
    obtain ⟨x,hx,hnode⟩ := List.mem_map.mp (hnodes ▸ mem_nodes hv)
    exact ⟨x,List.mem_filter.mp hx,(congrArg t.objectOf? hnode).trans (objectOf?_eq_some hnodup hv)⟩

/-- The root object is the first one. -/
lemma rootObject_eq {p : Parse} (h : p.root.Rooted) (hnodup : (ofRoot p.root).nodes.Nodup) :
    (p.rootObject?.bind fun n => (ofRoot p.root).objectOf? n.id) =
      if (ofRoot p.root).objects.isEmpty then none else some 0 := by
  obtain ⟨hnone,hparents⟩ | ⟨c,hc,hhead,-,-⟩ := first_ofRoot h
  · have hempty : (ofRoot p.root).objects = #[] := by simpa [family] using hparents
    rw [hnone,hempty]
    rfl
  · obtain ⟨v,hv,hnode⟩ : ∃ v, (ofRoot p.root).objects[0]? = some v ∧ v.node = c.id := by
      rw [nodes,List.head?_map] at hhead
      obtain ⟨v,hv,hnode⟩ := Option.map_eq_some_iff.mp hhead
      exact ⟨v,by rw [← Array.getElem?_toList,← List.head?_eq_getElem?]; exact hv,hnode⟩
    have hsize : (ofRoot p.root).objects.isEmpty = false := by
      have := (Array.getElem?_eq_some_iff.mp hv).1
      simpa using Nat.ne_of_gt this
    rw [hc,Option.bind_some,hsize,← hnode,objectOf?_eq_some hnodup hv]
    rfl

end SymbolTables

/-- The objects in the tables of a document are one tree, and the numbers go through it in pre-order. -/
structure Symbols.ObjectTree (s : Symbols) (root : Node) : Prop where
  rootObject : s.rootObject = if s.tables.objects.isEmpty then none else some 0
  single : ∀ (i : Nat) (v : ObjectValue), s.tables.objects[i]? = some v → (v.parent = none ↔ i = 0)
  earlier : ∀ (i : Nat) (v : ObjectValue) p, s.tables.objects[i]? = some v → v.parent = some p → p < i
  /-- Between an object and one in it there is nothing but what is in it too. -/
  between : ∀ (i : Nat) (v : ObjectValue) p, s.tables.objects[i]? = some v → v.parent = some p →
    ∀ (j : Nat) (w : ObjectValue), s.tables.objects[j]? = some w → p < j → j < i → ∃ q ≥ p, w.parent = some q
  /-- An object is once among the children of its parent, and among no others. -/
  children : ∀ (i : Nat) (v : ObjectValue), s.tables.objects[i]? = some v →
    ∀ (j : Nat) (w : ObjectValue), s.tables.objects[j]? = some w →
      w.children.count i = if v.parent = some j then 1 else 0
  present : ∀ w ∈ s.tables.objects, ∀ i ∈ w.children, i < s.tables.objects.size
  increasing : ∀ w ∈ s.tables.objects, w.children.Pairwise (· < ·)
  /-- The objects come in the order in which their nodes are walked. -/
  nodes : s.tables.nodes = (root.walk.filter (·.kind.isQmlObject)).map Node.id
  /-- Each of these nodes is found as an object of its own. -/
  found : Set.BijOn (fun x : Node => s.tables.objectOf? x.id) {x | x ∈ root.walk ∧ x.kind.isQmlObject}
    {o | ∃ i < s.tables.objects.size, o = some i}
  only : ∀ node i, s.tables.objectOf? node = some i → ∃ x ∈ root.walk, x.kind.isQmlObject ∧ x.id = node
  /-- The members of an object are those in its braces, and there are no braces between. -/
  members : ∀ v ∈ s.tables.objects, ∃ x ∈ root.walk, ∃ f, x.id = v.node ∧ x.objectForm? = some f ∧
    v.members = f.initializer.entered ∧ ∀ m ∈ v.members, ∃ n ∈ root.walk, n.id = m.node ∧ n.span = m.span ∧
      Node.Innermost root n f.initializer

open SymbolTables in
/-- In the tables of a source, with errors or without, the objects are one tree. -/
theorem objects_form_tree {source : String} {p : Parse} (h : parse? .qml source = some p) (lines : LineIndex)
    (directory : Option Path) : (p.symbols lines directory).ObjectTree p.root := by
  have hrooted := Grammar.rooted_of_parse? h
  have hids := Grammar.nodup_of_parse? h
  have hnodes := nodes_ofRoot hrooted
  have hnodup : (ofRoot p.root).nodes.Nodup := hnodes ▸ (List.filter_sublist.map Node.id).nodup hids
  have hroot := rootObject_eq hrooted hnodup
  have hfirst := first_ofRoot hrooted
  obtain ⟨haccepts,hrosters⟩ := accepts_ofRoot p.root
  rw [hrooted.bodies] at hrosters
  unfold Parse.symbols
  generalize ofRoot p.root = t at *
  have hchildren {i : Nat} {v : ObjectValue} (hv : t.objects[i]? = some v) := children_of_accepts haccepts hv
  have hnumber {v : ObjectValue} (hv : v ∈ t.objects) : ∃ i, t.objects[i]? = some v :=
    Array.mem_iff_getElem?.mp hv
  constructor
  case rootObject => exact hroot
  case single =>
    intro i v hv
    have hi := getElem?_parents hv
    obtain ⟨-,hparents⟩ | ⟨c,-,-,hzero,haround⟩ := hfirst
    · rw [hparents] at hi
      cases hi
    · exact haround.parent_eq_none_iff hzero hi
  case earlier =>
    intro i v p hv hp
    exact haccepts.preOrder.lt i p (hp ▸ getElem?_parents hv)
  case between =>
    intro i v p hv hp j w hw hpj hji
    obtain ⟨q,hq,hj⟩ := haccepts.preOrder.between i p j (hp ▸ getElem?_parents hv) hpj hji
    exact ⟨q,hq,Option.some.inj ((getElem?_parents hw).symm.trans hj)⟩
  case children =>
    intro i v hv j w hw
    rw [hchildren hw,(nodup_childrenOf _ _).count]
    simp [mem_childrenOf,getElem?_parents hv]
  case present =>
    intro w hw i hi
    obtain ⟨j,hj⟩ := hnumber hw
    rw [hchildren hj] at hi
    have := (List.getElem?_eq_some_iff.mp (mem_childrenOf.mp hi)).1
    simpa [family] using this
  case increasing =>
    intro w hw
    obtain ⟨j,hj⟩ := hnumber hw
    rw [hchildren hj]
    exact List.pairwise_lt_range.filter _
  case nodes => exact hnodes
  case found => exact bijOn_objectOf? hids hnodup hnodes
  case only =>
    intro node i hi
    have hv := Array.getElem?_eq_getElem (objectOf?_lt hi)
    obtain ⟨x,hx,hnode⟩ := List.mem_map.mp (hnodes ▸ mem_nodes hv)
    exact ⟨x,(List.mem_filter.mp hx).1,(List.mem_filter.mp hx).2,hnode.trans (node_of_objectOf? hi hv)⟩
  case members =>
    intro v hv
    have hroster : (v.node,v.members) ∈ t.family.rosters := List.mem_map_of_mem (Array.mem_def.mp hv)
    obtain ⟨x,hx,hbody⟩ := List.mem_filterMap.mp (hrosters ▸ hroster)
    obtain ⟨f,hf,heq⟩ := Option.map_eq_some_iff.mp hbody
    obtain ⟨hnode,hmembers⟩ := Prod.mk.inj heq
    refine ⟨x,hx,f,hnode,hf,hmembers.symm,fun m hm => ?_⟩
    exact Node.innermost_of_mem_entered hids hx hf (hmembers ▸ hm)

/-- Objects and members in all places where they can be, the last object without its closing brace. -/
theorem objects_form_tree_everywhere : ∃ p,
    parse? .qml "A\x7bB\x7bid:b\x7d c:C\x7bD on x\x7b\x7d\x7d l:[E\x7b\x7d,F\x7bvar y,z\x7d] property G p:G\x7bsignal s" =
      some p ∧
    (SymbolTables.ofRoot p.root).objects.toList.map ObjectValue.parent =
      [none,some 0,some 0,some 2,some 0,some 0,some 0] ∧
    (SymbolTables.ofRoot p.root).objects.toList.map (·.members.map ObjectMember.name) =
      [["c","l","p"],["id"],["x"],[],[],["y","z"],["s"]] ∧
    ∀ lines directory, (p.symbols lines directory).ObjectTree p.root := by
  have h : (parse? .qml
      "A\x7bB\x7bid:b\x7d c:C\x7bD on x\x7b\x7d\x7d l:[E\x7b\x7d,F\x7bvar y,z\x7d] property G p:G\x7bsignal s").any fun p =>
        (SymbolTables.ofRoot p.root).objects.toList.map ObjectValue.parent =
          [none,some 0,some 0,some 2,some 0,some 0,some 0] &&
        (SymbolTables.ofRoot p.root).objects.toList.map (·.members.map ObjectMember.name) =
          [["c","l","p"],["id"],["x"],[],[],["y","z"],["s"]] := by
    decide +kernel
  obtain ⟨p,hp,hobjects⟩ := (Option.any_eq_true _ _).mp h
  obtain ⟨hparents,hmembers⟩ := Bool.and_eq_true_iff.mp hobjects
  exact ⟨p,hp,of_decide_eq_true hparents,of_decide_eq_true hmembers,objects_form_tree hp⟩

end QmlCodeModel
