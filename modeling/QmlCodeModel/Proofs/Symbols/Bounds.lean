import QmlCodeModel.Proofs.Symbols.Objects

/-! The numbers in the symbol tables of a tree are numbers of objects that are there: those of parents,
those that names stand for, and that of the root object. -/
namespace QmlCodeModel

namespace SymbolTables

/-- Whatever number is said to be an object's is one. -/
structure Bounded (t : SymbolTables) : Prop where
  parents : ∀ k ∈ t.keys, ∀ i ∈ k.parent, i < t.keys.length
  ids : ∀ name i, t.ids.get? name = some i → i < t.keys.length

/-- Tables are kept in bounds while objects are added to them. -/
structure Grows (t t' : SymbolTables) : Prop where
  length : t.keys.length ≤ t'.keys.length
  bounded : t.Bounded → t'.Bounded

/-- Neither the objects nor their names have changed. -/
structure Numbers (t t' : SymbolTables) : Prop where
  keys : t'.keys = t.keys
  ids : t'.ids = t.ids

variable {t t' t'' : SymbolTables} {object : Option Nat}

namespace Numbers

lemma trans (h : Numbers t t') (h' : Numbers t' t'') : Numbers t t'' :=
  ⟨h'.keys.trans h.keys,h'.ids.trans h.ids⟩

lemma grows (h : Numbers t t') : Grows t t' := by
  refine ⟨Nat.le_of_eq (congrArg List.length h.keys).symm,fun ht => ⟨?_,?_⟩⟩
  · rw [h.keys]
    exact ht.parents
  · rw [h.keys,h.ids]
    exact ht.ids

lemma foldl {α : Type} {f : SymbolTables → α → SymbolTables} {l : List α} (t : SymbolTables)
    (h : ∀ x ∈ l, ∀ t, Numbers t (f t x)) : Numbers t (l.foldl f t) := by
  induction l generalizing t with
  | nil => exact ⟨rfl,rfl⟩
  | cons x l ih =>
    exact (h x List.mem_cons_self t).trans (ih _ fun y hy => h y (List.mem_cons_of_mem _ hy))

end Numbers

/-! Scripts and members name no objects. -/

lemma ids_script (c : Surroundings) (t : SymbolTables) (n : Node) : (t.script c n).ids = t.ids :=
  view_script (v := ids) (fun _ _ _ => rfl) (fun _ _ _ _ => rfl) c t n

lemma numbers_script (c : Surroundings) (t : SymbolTables) (n : Node) : Numbers t (t.script c n) :=
  ⟨keys_script c t n,ids_script c t n⟩

lemma numbers_binding (t : SymbolTables) (statement : Node) : Numbers t (t.binding statement) := by
  unfold binding
  split
  · have hopened : Numbers t (t.openScope .function statement.span (some 0)) := ⟨rfl,rfl⟩
    exact hopened.trans (Numbers.foldl _ fun x _ u => numbers_script _ u x)
  · exact numbers_script _ t statement

lemma numbers_addMember (t : SymbolTables) (object : Option Nat) (name : String)
    (kind : ObjectMemberKind) (n : Node) : Numbers t (t.addMember object name kind n) := by
  refine ⟨keys_addMember t object name kind n,?_⟩
  cases object <;> rfl

lemma numbers_header (t : SymbolTables) (n : Node) : Numbers t (t.header n) := by
  unfold header
  split <;> exact ⟨rfl,rfl⟩

/-! An object is named after it has been entered, and entered after the object that it is a part of. -/

lemma grows_bindId {i : Nat} (hi : i < t.keys.length) (statement : Node) :
    Grows t (t.bindId i statement) := by
  have hkeys := keys_bindId t i statement
  refine ⟨Nat.le_of_eq (congrArg List.length hkeys).symm,fun ht => ⟨?_,?_⟩⟩
  · rw [hkeys]
    exact ht.parents
  rw [hkeys]
  intro name j
  obtain ⟨faults,h | ⟨given,h⟩⟩ := t.bindId_cases i statement <;> rw [h]
  · exact ht.ids name j
  intro hj
  rw [FiniteMap.get?_insert] at hj
  split at hj
  · cases hj
    exact hi
  · exact ht.ids name j hj

lemma grows_addObject (h : ∀ i ∈ object, i < t.keys.length) (node : Nat) (typeName : String) :
    Grows t (t.addObject node typeName object).2 := by
  have hkeys := keys_addObject t node typeName object
  have hlength : (t.addObject node typeName object).2.keys.length = t.keys.length + 1 := by
    rw [hkeys,List.length_append,List.length_singleton]
  refine ⟨by omega,fun ht => ⟨?_,?_⟩⟩
  · intro k hk i hi
    rw [hkeys] at hk
    rw [hlength]
    obtain hk | hk := List.mem_append.mp hk
    · exact Nat.lt_succ_of_lt (ht.parents k hk i hi)
    · rw [List.mem_singleton.mp hk] at hi
      exact Nat.lt_succ_of_lt (h i hi)
  · intro name i hi
    rw [hlength]
    exact Nat.lt_succ_of_lt (ht.ids name i hi)

namespace Grows

lemma refl (t : SymbolTables) : Grows t t := ⟨Nat.le_refl _,id⟩

lemma trans (h : Grows t t') (h' : Grows t' t'') : Grows t t'' :=
  ⟨Nat.le_trans h.length h'.length,fun ht => h'.bounded (h.bounded ht)⟩

/-- Objects keep their numbers, so what needs one can follow what grows. -/
lemma andThen (h : Grows t t') (hobject : ∀ i ∈ object, i < t.keys.length)
    (h' : (∀ i ∈ object, i < t'.keys.length) → Grows t' t'') : Grows t t'' :=
  h.trans (h' fun i hi => Nat.lt_of_lt_of_le (hobject i hi) h.length)

lemma foldl {α : Type} {f : SymbolTables → α → SymbolTables} {l : List α}
    (hobject : ∀ i ∈ object, i < t.keys.length)
    (h : ∀ x ∈ l, ∀ t : SymbolTables, (∀ i ∈ object, i < t.keys.length) → Grows t (f t x)) :
    Grows t (l.foldl f t) := by
  induction l generalizing t with
  | nil => exact .refl t
  | cons x l ih =>
    refine (h x List.mem_cons_self t hobject).andThen hobject fun hlater => ?_
    exact ih hlater fun y hy => h y (List.mem_cons_of_mem _ hy)

end Grows

/-- An object with its members. -/
lemma grows_object {init : Node} (h : ∀ i ∈ object, i < t.keys.length) (node : Nat) (typeName : String)
    (hinit : ∀ (t : SymbolTables) (object : Option Nat), (∀ i ∈ object, i < t.keys.length) →
      Grows t (member object t init)) :
    Grows t (member (some (t.addObject node typeName object).1) (t.addObject node typeName object).2
      init) := by
  refine (grows_addObject h node typeName).trans (hinit _ _ ?_)
  rintro i ⟨⟩
  rw [keys_addObject,number_addObject,List.length_append,List.length_singleton]
  exact Nat.lt_succ_self _

/-- By induction on the tree: what hangs below a node keeps the tables in bounds. -/
theorem grows_member (n : Node) (object : Option Nat) (t : SymbolTables)
    (h : ∀ i ∈ object, i < t.keys.length) : Grows t (member object t n) := by
  induction n using Node.walk.induct generalizing object t with
  | case1 n ih =>
    have hmembers {members : List Node} (hsub : ∀ c ∈ members, c ∈ n.children) (t : SymbolTables)
        (h : ∀ i ∈ object, i < t.keys.length) : Grows t (members.foldl (member object) t) :=
      Grows.foldl h fun c hc u hu => ih c (hsub c hc) object u hu
    obtain ⟨id,span,kind⟩ := n
    rw [member]
    cases kind
    case document headers members =>
      simp only [Node.kind,foldl_attach_member]
      have hheaders : Numbers t (headers.foldl header t) :=
        Numbers.foldl t fun x _ u => numbers_header u x
      refine hheaders.grows.andThen h fun h => ?_
      exact hmembers (fun c hc => List.mem_append_right headers hc) _ h
    case objectDefinition typeName init =>
      simp only [Node.kind]
      exact grows_object h _ _ fun u o hu => ih init (List.mem_singleton_self init) o u hu
    case objectBinding name typeName init on =>
      simp only [Node.kind]
      have hadd := numbers_addMember t object name.joined .objectBinding
        ⟨id, span, .objectBinding name typeName init on⟩
      refine hadd.grows.andThen h fun h => ?_
      exact grows_object h _ _ fun u o hu => ih init (List.mem_singleton_self init) o u hu
    case objectInitializer members =>
      simp only [Node.kind,foldl_attach_member]
      exact hmembers (fun c hc => hc) t h
    case scriptBinding name statement =>
      simp only [Node.kind]
      have hrest (u : SymbolTables) :
          Grows u ((u.addMember object name.joined .scriptBinding ⟨id, span, .scriptBinding name statement⟩).binding
            statement) :=
        ((numbers_addMember u object _ _ _).trans (numbers_binding _ statement)).grows
      cases object with
      | none => exact hrest t
      | some i =>
        change Grows t (binding (addMember (if name.joined == "id" then t.bindId i statement else t) _ _ _ _) _)
        split
        · exact (grows_bindId (h i rfl) statement).trans (hrest _)
        · exact hrest t
    case arrayBinding name members brackets =>
      simp only [Node.kind,foldl_attach_member]
      have hadd := numbers_addMember t object name.joined .arrayBinding
        ⟨id, span, .arrayBinding name members brackets⟩
      refine hadd.grows.andThen h fun h => ?_
      exact hmembers (fun c hc => hc) _ h
    case publicMember m =>
      simp only [Node.kind,foldl_attach_member]
      have hadd := numbers_addMember t object m.name.name (declaredKind m)
        ⟨id, span, .publicMember m⟩
      have hstatement (u : SymbolTables) : Numbers u (m.statement.toList.foldl binding u) :=
        Numbers.foldl u fun x _ u => numbers_binding u x
      refine (hadd.trans (hstatement _)).grows.andThen h fun h => ?_
      exact hmembers (fun c hc => List.mem_append_right m.statement.toList hc) _ h
    case sourceElement element =>
      simp only [Node.kind]
      refine Numbers.grows (Numbers.trans (Numbers.foldl t fun x _ u => ?_) (numbers_script {} _ element))
      exact numbers_addMember u object x.1 x.2.1 x.2.2
    case enumDeclaration => exact (numbers_addMember t object _ _ _).grows
    case importing => exact (numbers_header t _).grows
    case pragma => exact (numbers_header t _).grows
    all_goals exact (numbers_script {} t _).grows

/-- The tables of any tree are in bounds. -/
theorem bounded_ofRoot (root : Node) : (ofRoot root).Bounded := by
  refine (grows_member root none (openScope {} .global root.span none) (by simp)).bounded ⟨?_,?_⟩
  · intro k hk
    cases hk
  · intro name i hi
    cases hi

lemma length_keys (t : SymbolTables) : t.keys.length = t.objects.size := by
  simp [keys]

lemma objectOf?_lt {node i : Nat} (h : t.objectOf? node = some i) : i < t.objects.size := by
  have := List.findIdx?_eq_some_iff_getElem.mp h
  obtain ⟨hlt,-⟩ := this
  simpa using hlt

end SymbolTables

/-- Whatever number is said to be an object's is one, also that of the root object. -/
structure Symbols.Bounded (s : Symbols) : Prop where
  tables : s.tables.Bounded
  root : ∀ i, s.rootObject = some i → i < s.tables.objects.size

lemma Parse.symbols_bounded (p : Parse) (lines : LineIndex) (directory : Option Path) :
    (p.symbols lines directory).Bounded := by
  refine ⟨SymbolTables.bounded_ofRoot p.root,fun i hi => ?_⟩
  obtain ⟨n,-,hn⟩ := Option.bind_eq_some_iff.mp hi
  exact SymbolTables.objectOf?_lt hn

end QmlCodeModel
