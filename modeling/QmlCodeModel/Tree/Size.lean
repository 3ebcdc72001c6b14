import QmlCodeModel.Tree.Node

/-! A child is smaller than the layer or the node that it hangs below, which is why a recursion over
the children of a node ends. -/
namespace QmlCodeModel

section

variable {α : Type} [SizeOf α] {c : α}

theorem sizeOf_lt_of_mem_toList {o : Option α} (h : c ∈ o.toList) : sizeOf c < sizeOf o := by
  cases o with
  | none => simp at h
  | some x =>
    simp only [Option.toList_some, List.mem_singleton] at h
    subst h
    simp

theorem BindingTarget.sizeOf_lt_of_mem_children {t : BindingTarget α} (h : c ∈ t.children) :
    sizeOf c < sizeOf t := by
  cases t <;> simp [BindingTarget.children] at h ⊢
  subst h
  omega

theorem FormalParameter.sizeOf_lt_of_mem_children {p : FormalParameter α} (h : c ∈ p.children) :
    sizeOf c < sizeOf p := by
  cases p
  simp only [FormalParameter.children, List.mem_append] at h
  simp only [FormalParameter.mk.sizeOf_spec]
  rcases h with h | h
  · have := BindingTarget.sizeOf_lt_of_mem_children h
    omega
  · have := sizeOf_lt_of_mem_toList h
    omega

theorem FunctionParts.sizeOf_lt_of_mem_children {f : FunctionParts α} (h : c ∈ f.children) :
    sizeOf c < sizeOf f := by
  cases f
  simp only [FunctionParts.children, List.mem_append, List.mem_flatMap, List.mem_singleton] at h
  simp only [FunctionParts.mk.sizeOf_spec]
  rcases h with ⟨p, hp, h⟩ | rfl
  · have := List.sizeOf_lt_of_mem hp
    have := FormalParameter.sizeOf_lt_of_mem_children h
    omega
  · omega

theorem ClassParts.sizeOf_lt_of_mem_children {k : ClassParts α} (h : c ∈ k.children) :
    sizeOf c < sizeOf k := by
  cases k
  simp only [ClassParts.children, List.mem_append] at h
  simp only [ClassParts.mk.sizeOf_spec]
  rcases h with h | h
  · have := sizeOf_lt_of_mem_toList h
    omega
  · have := List.sizeOf_lt_of_mem h
    omega

theorem PropertyKey.sizeOf_lt_of_mem_children {k : PropertyKey α} (h : c ∈ k.children) :
    sizeOf c < sizeOf k := by
  cases k <;> simp [PropertyKey.children] at h ⊢
  subst h
  omega

theorem PublicMember.sizeOf_lt_of_mem {m : PublicMember α}
    (h : c ∈ m.statement.toList ∨ c ∈ m.binding.toList) : sizeOf c < sizeOf m := by
  cases m
  simp only [PublicMember.mk.sizeOf_spec]
  rcases h with h | h
  all_goals
    have := sizeOf_lt_of_mem_toList h
    simp only at this
    omega

theorem Kind.sizeOf_lt_of_mem_children {k : Kind α} (h : c ∈ k.children) :
    sizeOf c < sizeOf k := by
  have inList : ∀ {l : List α}, c ∈ l → sizeOf c < sizeOf l := List.sizeOf_lt_of_mem
  have inOption : ∀ {o : Option α}, c ∈ o.toList → sizeOf c < sizeOf o := sizeOf_lt_of_mem_toList
  have inTarget : ∀ {t : BindingTarget α}, c ∈ t.children → sizeOf c < sizeOf t :=
    BindingTarget.sizeOf_lt_of_mem_children
  have inTarget? : ∀ {o : Option (BindingTarget α)},
      c ∈ (o.map BindingTarget.children).getD [] → sizeOf c < sizeOf o := by
    intro o h
    cases o with
    | none => simp at h
    | some t =>
      have := inTarget h
      simp only [Option.some.sizeOf_spec]
      omega
  have inFunction : ∀ {f : FunctionParts α}, c ∈ f.children → sizeOf c < sizeOf f :=
    FunctionParts.sizeOf_lt_of_mem_children
  have inClass : ∀ {k : ClassParts α}, c ∈ k.children → sizeOf c < sizeOf k :=
    ClassParts.sizeOf_lt_of_mem_children
  have inKey : ∀ {k : PropertyKey α}, c ∈ k.children → sizeOf c < sizeOf k :=
    PropertyKey.sizeOf_lt_of_mem_children
  cases k
  case publicMember m =>
    simp only [Kind.children, List.mem_append] at h
    have := PublicMember.sizeOf_lt_of_mem h
    simp only [Kind.publicMember.sizeOf_spec]
    omega
  case array elements =>
    simp only [Kind.children, List.mem_filterMap, id_eq, exists_eq_right] at h
    have := List.sizeOf_lt_of_mem h
    simp only [Option.some.sizeOf_spec, Kind.array.sizeOf_spec] at this ⊢
    omega
  all_goals
    simp only [Kind.children, List.mem_append, List.mem_cons, List.not_mem_nil, or_false] at h
  all_goals simp
  all_goals grind

end

theorem Node.sizeOf_kind_lt (n : Node) : sizeOf n.kind < sizeOf n := by
  cases n
  simp only [Node.kind, Node.mk.sizeOf_spec]
  omega

/-- A child of a node is smaller than the node. -/
theorem Node.sizeOf_lt_of_mem_children {n c : Node} (h : c ∈ n.children) :
    sizeOf c < sizeOf n :=
  Nat.lt_trans (Kind.sizeOf_lt_of_mem_children h) n.sizeOf_kind_lt

end QmlCodeModel
