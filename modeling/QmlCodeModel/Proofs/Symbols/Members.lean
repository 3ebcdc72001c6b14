import QmlCodeModel.Proofs.Grammar.OneTree
import QmlCodeModel.Proofs.Symbols.Ids

/-! The members of objects as they stand in the tree. What a node enters stands in the braces of the object that it
is entered into, and in those of no object inside. -/
namespace QmlCodeModel

namespace Node

/-- The members that a node is by itself. -/
def ownMembers (n : Node) : List ObjectMember :=
  match n.kind with
  | .objectBinding name _ _ _ => [⟨name.joined, .objectBinding, n.id, n.span⟩]
  | .scriptBinding name _ => [⟨name.joined, .scriptBinding, n.id, n.span⟩]
  | .arrayBinding name _ _ => [⟨name.joined, .arrayBinding, n.id, n.span⟩]
  | .publicMember m => [⟨m.name.name, SymbolTables.declaredKind m, n.id, n.span⟩]
  | .sourceElement element =>
    (SymbolTables.sourceMembers element).map fun e => ⟨e.1, e.2.1, e.2.2.id, e.2.2.span⟩
  | .enumDeclaration name _ => [⟨name.name, .enumeration, n.id, n.span⟩]
  | _ => []

/-- The members that a node enters into the object that it stands in. What stands in the braces of an object is
entered there. -/
def entered (n : Node) : List ObjectMember :=
  n.ownMembers ++
    if n.kind.isQmlObject then [] else n.memberParts.attach.flatMap fun ⟨c, _⟩ => c.entered
termination_by sizeOf n
decreasing_by exact sizeOf_lt_of_mem_children (n.memberParts_sublist.subset ‹_›)

lemma entered_eq (n : Node) : n.entered =
    n.ownMembers ++ if n.kind.isQmlObject then [] else n.memberParts.flatMap entered := by
  rw [entered]
  congr 2
  exact flatMap_attach n.memberParts entered

/-- An object by its node, with the members that stand in its braces. -/
def body? (n : Node) : Option (Nat × List ObjectMember) :=
  n.objectForm?.map fun f => (n.id,f.initializer.entered)

/-- The objects at and below a node with their members, in the order in which they start. -/
def bodies (n : Node) : List (Nat × List ObjectMember) :=
  n.body?.toList ++ n.memberParts.attach.flatMap fun ⟨c, _⟩ => c.bodies
termination_by sizeOf n
decreasing_by exact sizeOf_lt_of_mem_children (n.memberParts_sublist.subset ‹_›)

lemma bodies_eq (n : Node) : n.bodies = n.body?.toList ++ n.memberParts.flatMap bodies := by
  rw [bodies]
  exact congrArg _ (flatMap_attach n.memberParts bodies)

/-! No object of a document is left out. -/

section

variable {n : Node}

lemma Quiet.filterMap_walk (h : n.Quiet) : n.walk.filterMap body? = [] :=
  List.filterMap_eq_nil_iff.mpr fun x hx => by rw [body?,h.empty x hx,Option.map_none]

lemma Quiet.bodies (h : n.Quiet) : n.bodies = [] := by
  induction n using Node.walk.induct with
  | case1 n ih =>
    rw [bodies_eq,body?,h.none,Option.map_none,Option.toList_none,List.nil_append,List.flatMap_eq_nil_iff]
    intro c hc
    have hc := n.memberParts_sublist.subset hc
    exact ih c hc (h.child hc)

/-- The parts that are passed over have no objects. -/
lemma bodies_of_parts (skipped : List Node) (hskipped : ∀ c ∈ skipped, c.Quiet)
    (hchildren : n.children = skipped ++ n.memberParts)
    (h : ∀ c ∈ n.memberParts, c.bodies = c.walk.filterMap body?) : n.bodies = n.walk.filterMap body? := by
  have hnone : (skipped.flatMap walk).filterMap body? = [] := by
    rw [List.filterMap_flatMap,List.flatMap_eq_nil_iff]
    exact fun c hc => (hskipped c hc).filterMap_walk
  rw [bodies_eq,walk_eq,hchildren,List.flatMap_append,List.filterMap_cons,List.filterMap_append,hnone,
    List.nil_append,List.filterMap_flatMap,List.flatMap_congr h]
  cases n.body? <;> rfl

lemma memberParts_of_isBody (h : n.kind.isBody) : n.memberParts = n.children := by
  obtain ⟨id,span,kind⟩ := n
  cases kind <;> first | rfl | cases h

lemma memberParts_of_objectForm {f : ObjectForm} (hf : n.objectForm? = some f) :
    n.memberParts = [f.initializer] := by
  obtain ⟨id,span,kind⟩ := n
  cases kind <;> cases hf <;> rfl

lemma Orderly.bodies (h : n.Orderly) : n.bodies = n.walk.filterMap body? := by
  induction h with
  | quiet h => rw [h.bodies,h.filterMap_walk]
  | @object n f hf body members ih =>
    have hparts := memberParts_of_objectForm hf
    have hbody := memberParts_of_isBody body
    refine bodies_of_parts [] (by simp) ((children_of_objectForm hf).trans hparts.symm) ?_
    rw [hparts]
    simp only [List.mem_singleton,forall_eq]
    exact bodies_of_parts [] (by simp) hbody.symm fun c hc => ih c (hbody ▸ hc)
  | @array n name members brackets hk objects below ih =>
    have hparts : n.memberParts = members := by rw [memberParts,hk]
    refine bodies_of_parts [] (by simp) (by simp [children,hk,Kind.children,hparts]) fun c hc => ?_
    exact ih c (hparts ▸ hc)
  | @declared n b m hk property statement binding value below declares ih =>
    have hparts : n.memberParts = [b] := by simp [memberParts,hk,binding]
    refine bodies_of_parts [] (by simp) ?_ fun c hc => ?_
    · simp [children,hk,Kind.children,hparts,statement,binding]
    · rw [hparts,List.mem_singleton] at hc
      exact hc ▸ ih

lemma Rooted.bodies {root : Node} (h : root.Rooted) : root.bodies = root.walk.filterMap body? := by
  cases h with
  | @mk headers members hk quiet single objects below =>
    have hparts : root.memberParts = members := by rw [memberParts,hk]
    refine bodies_of_parts headers quiet (by simp [children,hk,Kind.children,hparts]) fun c hc => ?_
    exact (below c (hparts ▸ hc)).bodies

end

/-! A node hangs below one other node. -/

section

variable {root a b c n : Node}

lemma eq_of_mem_children (h : (root.walk.map id).Nodup) (ha : a ∈ root.walk) (hb : b ∈ root.walk)
    (hca : c ∈ a.children) (hcb : c ∈ b.children) : a = b := by
  have hnodup := (root.walk_perm_children.map id).nodup_iff.mp h
  have hbelow := (List.nodup_cons.mp (List.Nodup.of_map id hnodup)).2
  by_contra hne
  have : Std.Symm (Function.onFun List.Disjoint children) := ⟨fun _ _ h _ hb ha => h ha hb⟩
  have hapart := (List.nodup_flatMap.mp hbelow).2.forall ha hb hne
  exact hapart hca hcb

lemma mem_walk_iff : c ∈ n.walk ↔ c = n ∨ ∃ z ∈ n.walk, c ∈ z.children := by
  rw [n.walk_perm_children.mem_iff,List.mem_cons,List.mem_flatMap]

/-- A node is found at or below another one without going through an object. -/
inductive Finds : Node → Node → Prop
  | here (n : Node) : Finds n n
  | deeper {n c x : Node} (h : n.objectForm? = none) (hc : c ∈ n.children) (hx : Finds c x) : Finds n x

lemma Finds.mem_walk (h : a.Finds n) : n ∈ a.walk := by
  induction h with
  | here n => exact n.mem_walk_self
  | deeper _ hc _ ih => exact mem_walk_of_mem_children hc ih

/-- Braces that a node stands in lie around all from which the node is found. By induction on the way: nothing
else than its object hangs right above an initializer. -/
lemma Finds.mem_initializer (h : a.Finds n) (hnodup : (root.walk.map id).Nodup) (ha : a ∈ root.walk)
    {y : Node} {g : ObjectForm} (hy : y ∈ root.walk) (hg : y.objectForm? = some g)
    (hn : n ∈ g.initializer.walk) : a ∈ g.initializer.walk := by
  have hinside : g.initializer ∈ root.walk := mem_walk_trans hy (initializer_mem_walk hg)
  induction h with
  | here n => exact hn
  | @deeper a c n hnone hc _ ih =>
    have hcroot := mem_walk_trans ha (mem_walk_of_mem_children hc c.mem_walk_self)
    obtain rfl | ⟨z,hz,hcz⟩ := mem_walk_iff.mp (ih hcroot hn)
    · obtain rfl := eq_of_mem_children hnodup ha hy hc (initializer_mem_children hg)
      rw [hg] at hnone
      cases hnone
    · obtain rfl := eq_of_mem_children hnodup ha (mem_walk_trans hinside hz) hc hcz
      exact hz

/-- A function is a member itself, and of variables each declaration is one. -/
lemma finds_of_mem_sourceMembers {element : Node} {e : String × ObjectMemberKind × Node}
    (h : e ∈ SymbolTables.sourceMembers element) : element.Finds e.2.2 := by
  unfold SymbolTables.sourceMembers at h
  split at h
  · obtain ⟨name,-,rfl⟩ := List.mem_map.mp h
    exact .here element
  · rename_i hk
    obtain ⟨declaration,hd,h⟩ := List.mem_flatMap.mp h
    have hself : e.2.2 = declaration := by
      split at h
      · obtain ⟨name,-,rfl⟩ := List.mem_map.mp h
        rfl
      · cases h
    refine .deeper (by simp [objectForm?,hk]) (by simpa [children,hk,Kind.children] using hd) ?_
    exact hself ▸ .here declaration
  · cases h

lemma finds_of_mem_ownMembers {m : ObjectMember} (h : m ∈ n.ownMembers) :
    ∃ x, n.Finds x ∧ x.id = m.node ∧ x.span = m.span := by
  obtain ⟨id,span,kind⟩ := n
  cases kind
  case sourceElement element =>
    obtain ⟨e,he,rfl⟩ := List.mem_map.mp h
    exact ⟨e.2.2,.deeper rfl (List.mem_singleton_self element) (finds_of_mem_sourceMembers he),rfl,rfl⟩
  case objectBinding | scriptBinding | arrayBinding | publicMember | enumDeclaration =>
    obtain rfl := List.mem_singleton.mp h
    exact ⟨_,.here _,rfl,rfl⟩
  all_goals cases h

/-- The member of a node is entered where the node is found. -/
lemma finds_of_mem_entered {m : ObjectMember} (h : m ∈ n.entered) :
    ∃ x, n.Finds x ∧ x.id = m.node ∧ x.span = m.span := by
  induction n using Node.walk.induct with
  | case1 n ih =>
    rw [entered_eq] at h
    obtain h | h := List.mem_append.mp h
    · exact finds_of_mem_ownMembers h
    · split at h
      · cases h
      · rename_i hobject
        obtain ⟨c,hc,h⟩ := List.mem_flatMap.mp h
        have hc := n.memberParts_sublist.subset hc
        obtain ⟨x,hx,hnode⟩ := ih c hc h
        rw [isQmlObject_eq,Bool.not_eq_true,Option.isSome_eq_false_iff,Option.isNone_iff_eq_none] at hobject
        exact ⟨x,.deeper hobject hc hx,hnode⟩

/-- A node stands in these braces, and whatever braces of objects it stands in lie around these. -/
structure Innermost (root n init : Node) : Prop where
  inside : n ∈ init.walk
  least : ∀ y ∈ root.walk, ∀ g, y.objectForm? = some g → n ∈ g.initializer.walk → init ∈ g.initializer.walk

/-- What is entered into an object stands in its braces, and in those of no object inside. -/
lemma innermost_of_mem_entered (hnodup : (root.walk.map id).Nodup) {f : ObjectForm} (ha : a ∈ root.walk)
    (hf : a.objectForm? = some f) {m : ObjectMember} (hm : m ∈ f.initializer.entered) :
    ∃ n ∈ root.walk, n.id = m.node ∧ n.span = m.span ∧ Innermost root n f.initializer := by
  have hinit : f.initializer ∈ root.walk := mem_walk_trans ha (initializer_mem_walk hf)
  obtain ⟨n,hfinds,hnode,hspan⟩ := finds_of_mem_entered hm
  refine ⟨n,mem_walk_trans hinit hfinds.mem_walk,hnode,hspan,hfinds.mem_walk,fun y hy g hg hn => ?_⟩
  exact hfinds.mem_initializer hnodup hinit hy hg hn

end

end Node

end QmlCodeModel
