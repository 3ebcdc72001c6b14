import Mathlib.Data.List.Flatten
import QmlCodeModel.Outline.Form
import QmlCodeModel.Proofs.Tree.Layout

/-! The objects of a tree, each with the object that it is a part of, and where they lie. The indexes of a document
are compared with this list. -/
namespace QmlCodeModel

/-- An object as every index of a document knows it: its node, its type, and the node of the object that
it is a part of. -/
structure ObjectEntry where
  node : Nat
  typeName : String
  owner : Option Nat

/-- What is gathered from the values in a list, whatever else is known of them. -/
lemma flatMap_attach {α β : Type} (l : List α) (f : α → List β) :
    (l.attach.flatMap fun x => f x.1) = l.flatMap f := by
  have h := List.flatMap_subtype (l := l.attach) (f := fun x => f x.1) (g := f) fun _ _ => rfl
  rwa [List.unattach_attach] at h

namespace Node

lemma walk_eq (n : Node) : n.walk = n :: n.children.flatMap walk := by
  rw [walk]
  exact congrArg (n :: ·) (flatMap_attach n.children walk)

lemma mem_walk_self (n : Node) : n ∈ n.walk := by
  rw [walk_eq]
  exact List.mem_cons_self

lemma mem_walk_of_mem_children {n c x : Node} (hc : c ∈ n.children) (hx : x ∈ c.walk) : x ∈ n.walk := by
  rw [walk_eq]
  exact List.mem_cons_of_mem _ (List.mem_flatMap.mpr ⟨c,hc,hx⟩)

lemma mem_walk_trans {n x y : Node} (hx : x ∈ n.walk) (hy : y ∈ x.walk) : y ∈ n.walk := by
  induction n using Node.walk.induct with
  | case1 n ih =>
    rw [walk_eq] at hx
    obtain rfl | hx := List.mem_cons.mp hx
    · exact hy
    obtain ⟨c,hc,hx⟩ := List.mem_flatMap.mp hx
    exact mem_walk_of_mem_children hc (ih c hc hx)

lemma forall_walk {P : Node → Prop} {n : Node} (hself : P n)
    (h : ∀ x ∈ n.children.flatMap walk, P x) : ∀ x ∈ [n].flatMap walk, P x := by
  intro x hx
  rw [List.flatMap_singleton,walk_eq] at hx
  obtain rfl | hx := List.mem_cons.mp hx
  · exact hself
  · exact h x hx

/-- The objects at and below a node that is a part of an object, in the order in which they start. -/
def entries (owner : Option Nat) (n : Node) : List ObjectEntry :=
  match n.objectForm? with
  | some f =>
    ⟨f.node, f.typeName, owner⟩ :: n.children.attach.flatMap fun ⟨c, _⟩ => c.entries (some f.node)
  | none => n.children.attach.flatMap fun ⟨c, _⟩ => c.entries owner
termination_by sizeOf n
decreasing_by all_goals exact sizeOf_lt_of_mem_children ‹_›

variable {n : Node} {f : ObjectForm} (owner : Option Nat)

lemma flatMap_attach_entries (nodes : List Node) :
    (nodes.attach.flatMap fun ⟨c, _⟩ => c.entries owner) = nodes.flatMap (entries owner) :=
  flatMap_attach nodes (entries owner)

lemma entries_of_object (h : n.objectForm? = some f) : n.entries owner =
    ⟨f.node, f.typeName, owner⟩ :: n.children.flatMap (entries (some f.node)) := by
  rw [entries,h]
  exact congrArg _ (flatMap_attach_entries _ _)

lemma entries_of_none (h : n.objectForm? = none) : n.entries owner = n.children.flatMap (entries owner) := by
  rw [entries,h]
  exact flatMap_attach_entries _ _

lemma children_of_objectForm (h : n.objectForm? = some f) : n.children = [f.initializer] := by
  unfold objectForm? at h
  split at h
  · rename_i hk
    cases h
    simp [children,hk,Kind.children]
  · rename_i hk
    cases h
    simp [children,hk,Kind.children]
  · cases h

lemma initializer_mem_children (h : n.objectForm? = some f) : f.initializer ∈ n.children := by
  rw [children_of_objectForm h]
  exact List.mem_singleton_self _

lemma initializer_mem_walk (h : n.objectForm? = some f) : f.initializer ∈ n.walk :=
  mem_walk_of_mem_children (initializer_mem_children h) f.initializer.mem_walk_self

lemma node_of_objectForm (h : n.objectForm? = some f) : f.node = n.id := by
  unfold objectForm? at h
  split at h <;> cases h <;> rfl

lemma objectForm_of_isBody (h : n.kind.isBody) : n.objectForm? = none := by
  unfold objectForm?
  split
  · rename_i hk
    simp [hk,Kind.isBody] at h
  · rename_i hk
    simp [hk,Kind.isBody] at h
  · rfl

/-- The objects in the braces of an object are parts of it. -/
lemma entries_of_body (h : n.objectForm? = some f) (hbody : f.initializer.kind.isBody) :
    n.entries owner = ⟨n.id, f.typeName, owner⟩ :: f.initializer.children.flatMap (entries (some n.id)) := by
  rw [entries_of_object owner h,children_of_objectForm h,node_of_objectForm h,List.flatMap_singleton,
    entries_of_none _ (objectForm_of_isBody hbody)]

lemma isQmlObject_eq (n : Node) : n.kind.isQmlObject = n.objectForm?.isSome := by
  obtain ⟨id,span,kind⟩ := n
  cases kind <;> rfl

/-- Different nodes of a tree are different objects. -/
lemma sublist_entries (n : Node) : ((n.entries owner).map ObjectEntry.node).Sublist (n.walk.map Node.id) := by
  induction n using Node.walk.induct generalizing owner with
  | case1 n ih =>
    have hchildren (owner : Option Nat) : ((n.children.flatMap (entries owner)).map ObjectEntry.node).Sublist
        ((n.children.flatMap walk).map Node.id) := by
      rw [List.map_flatMap,List.map_flatMap]
      apply List.Sublist.flatMap_right
      intro c hc
      exact ih c hc owner
    rw [walk_eq,List.map_cons]
    cases h : n.objectForm? with
    | some f =>
      rw [entries_of_object owner h,List.map_cons]
      change (f.node :: _).Sublist _
      rw [node_of_objectForm h]
      exact (hchildren _).cons_cons _
    | none =>
      rw [entries_of_none owner h]
      exact (hchildren _).cons _

/-- Scripts hold nothing but scripts, at and below a node. -/
def Layered (n : Node) : Prop :=
  ∀ x ∈ n.walk, x.kind.isScript → ∀ c ∈ x.children, c.kind.isScript ∨ c.kind = .error

lemma layered_of_children (h : n.kind.isScript → ∀ c ∈ n.children, c.kind.isScript ∨ c.kind = .error)
    (hc : ∀ c ∈ n.children, c.Layered) : n.Layered := by
  intro x hx
  rw [walk_eq] at hx
  obtain rfl | hx := List.mem_cons.mp hx
  · exact h
  · obtain ⟨c,hmem,hx⟩ := List.mem_flatMap.mp hx
    exact hc c hmem x hx

/-- There are no objects at and below a node, and scripts hold nothing but scripts. -/
structure Quiet (n : Node) : Prop where
  empty : ∀ x ∈ n.walk, x.objectForm? = none
  layered : n.Layered

lemma quiet_of_children (h : n.objectForm? = none)
    (hscript : n.kind.isScript → ∀ c ∈ n.children, c.kind.isScript ∨ c.kind = .error)
    (hc : ∀ c ∈ n.children, c.Quiet) : n.Quiet := by
  refine ⟨fun x hx => ?_,layered_of_children hscript fun c hmem => (hc c hmem).layered⟩
  rw [walk_eq] at hx
  obtain rfl | hx := List.mem_cons.mp hx
  · exact h
  · obtain ⟨c,hmem,hx⟩ := List.mem_flatMap.mp hx
    exact (hc c hmem).empty x hx

namespace Quiet

lemma none (h : n.Quiet) : n.objectForm? = .none := h.empty n n.mem_walk_self

lemma child (h : n.Quiet) {c : Node} (hc : c ∈ n.children) : c.Quiet :=
  ⟨fun x hx => h.empty x (mem_walk_of_mem_children hc hx),fun x hx => h.layered x (mem_walk_of_mem_children hc hx)⟩

lemma entries (h : n.Quiet) : n.entries owner = [] := by
  induction n using Node.walk.induct with
  | case1 n ih =>
    rw [entries_of_none owner h.none,List.flatMap_eq_nil_iff]
    intro c hc
    exact ih c hc (h.child hc)

end Quiet

/-- A declared property ends behind its name. -/
def Declares (n : Node) : Prop :=
  ∀ m, n.kind = .publicMember m → m.kind = .property → m.name.span.stop ≤ n.span.stop

/-- A node among the members of an object as the grammar makes it. Objects stand only in braces, in
brackets, and as first values of properties. -/
inductive Orderly : Node → Prop
  | quiet {n : Node} (h : n.Quiet) (declares : n.Declares) : Orderly n
  | object {n : Node} {f : ObjectForm} (hf : n.objectForm? = some f) (body : f.initializer.kind.isBody)
    (members : ∀ c ∈ f.initializer.children, c.Orderly) : Orderly n
  | array {n : Node} {name : QualifiedName} {members : List Node} {brackets : Span}
    (hk : n.kind = .arrayBinding name members brackets) (objects : ∀ c ∈ members, c.objectForm?.isSome)
    (below : ∀ c ∈ members, c.Orderly) : Orderly n
  | declared {n b : Node} {m : PublicMember Node} (hk : n.kind = .publicMember m)
    (property : m.kind = .property) (statement : m.statement = .none) (binding : m.binding = some b)
    (value : b.objectForm?.isSome ∨ ∃ name members brackets, b.kind = .arrayBinding name members brackets)
    (below : b.Orderly) (declares : n.Declares) : Orderly n

lemma isScript_of_objectForm (h : n.objectForm?.isSome) : n.kind.isScript = false := by
  rw [← isQmlObject_eq] at h
  cases hk : n.kind <;> simp [hk,Kind.isQmlObject,Kind.isScript] at h ⊢

/-- A layer that is no script, around nodes where scripts hold nothing but scripts. -/
lemma layered_of_not_isScript (h : n.kind.isScript = false) (hc : ∀ c ∈ n.children, c.Layered) : n.Layered :=
  layered_of_children (fun hscript => absurd hscript (by simp [h])) hc

lemma Orderly.layered (h : n.Orderly) : n.Layered := by
  induction h with
  | quiet h => exact h.layered
  | @object n f hf body members ih =>
    refine layered_of_not_isScript (isScript_of_objectForm (by simp [hf])) ?_
    rw [children_of_objectForm hf]
    simp only [List.mem_singleton,forall_eq]
    refine layered_of_not_isScript ?_ ih
    cases hk : f.initializer.kind <;> simp [hk,Kind.isBody,Kind.isScript] at body ⊢
  | @array n name members brackets hk objects below ih =>
    refine layered_of_not_isScript (by simp [hk,Kind.isScript]) fun c hc => ih c ?_
    simpa [children,hk,Kind.children] using hc
  | @declared n b m hk property statement binding value below declares ih =>
    refine layered_of_not_isScript (by simp [hk,Kind.isScript]) fun c hc => ?_
    obtain rfl : c = b := by simpa [children,hk,Kind.children,statement,binding] using hc
    exact ih

lemma declares_of_kind (h : ∀ m, n.kind ≠ .publicMember m) : n.Declares := fun m hm => absurd hm (h m)

lemma Orderly.declares (h : n.Orderly) : n.Declares := by
  cases h with
  | quiet h declares => exact declares
  | object hf body members =>
    refine declares_of_kind fun m hm => ?_
    simp [objectForm?,hm] at hf
  | array hk objects below =>
    refine declares_of_kind fun m hm => ?_
    rw [hk] at hm
    cases hm
  | declared hk property statement binding value below declares => exact declares

/-- The members of objects at and below an orderly member are orderly. -/
lemma Orderly.members {x : Node} {f : ObjectForm} (h : n.Orderly) (hx : x ∈ n.walk)
    (hf : x.objectForm? = some f) : ∀ c ∈ f.initializer.children, c.Orderly := by
  induction h with
  | quiet h =>
    rw [h.empty x hx] at hf
    cases hf
  | @object n g hg body members ih =>
    rw [walk_eq] at hx
    obtain rfl | hx := List.mem_cons.mp hx
    · obtain rfl := Option.some.inj (hg.symm.trans hf)
      exact members
    rw [children_of_objectForm hg,List.flatMap_singleton,walk_eq] at hx
    obtain rfl | hx := List.mem_cons.mp hx
    · cases hk : g.initializer.kind <;> simp [hk,Kind.isBody,objectForm?] at body hf
    obtain ⟨c,hc,hx⟩ := List.mem_flatMap.mp hx
    exact ih c hc hx
  | @array n name members brackets hk objects below ih =>
    rw [walk_eq] at hx
    obtain rfl | hx := List.mem_cons.mp hx
    · simp [objectForm?,hk] at hf
    obtain ⟨c,hc,hx⟩ := List.mem_flatMap.mp hx
    exact ih c (by simpa [children,hk,Kind.children] using hc) hx
  | @declared n b m hk property statement binding value below declares ih =>
    rw [walk_eq] at hx
    obtain rfl | hx := List.mem_cons.mp hx
    · simp [objectForm?,hk] at hf
    obtain ⟨c,hc,hx⟩ := List.mem_flatMap.mp hx
    obtain rfl : c = b := by simpa [children,hk,Kind.children,statement,binding] using hc
    exact ih hx

/-- The root of a document as the grammar makes it. -/
inductive Rooted : Node → Prop
  | mk {root : Node} {headers members : List Node} (hk : root.kind = .document headers members)
    (quiet : ∀ c ∈ headers, c.Quiet) (single : members.length ≤ 1)
    (objects : ∀ c ∈ members, c.objectForm?.isSome) (below : ∀ c ∈ members, c.Orderly) : Rooted root

lemma Rooted.layered {root : Node} (h : root.Rooted) : root.Layered := by
  cases h with
  | @mk headers members hk quiet single objects below =>
    refine layered_of_not_isScript (by simp [hk,Kind.isScript]) fun c hc => ?_
    have hc : c ∈ headers ++ members := by simpa [children,hk,Kind.children] using hc
    obtain hc | hc := List.mem_append.mp hc
    · exact (quiet c hc).layered
    · exact (below c hc).layered

/-- The members of objects in a document are orderly. -/
lemma Rooted.members {root x : Node} {f : ObjectForm} (h : root.Rooted) (hx : x ∈ root.walk)
    (hf : x.objectForm? = some f) : ∀ c ∈ f.initializer.children, c.Orderly := by
  cases h with
  | @mk headers members hk quiet single objects below =>
    rw [walk_eq] at hx
    obtain rfl | hx := List.mem_cons.mp hx
    · simp [objectForm?,hk] at hf
    obtain ⟨c,hc,hx⟩ := List.mem_flatMap.mp hx
    have hc : c ∈ headers ++ members := by simpa [children,hk,Kind.children] using hc
    obtain hc | hc := List.mem_append.mp hc
    · rw [(quiet c hc).empty x hx] at hf
      cases hf
    · exact (below c hc).members hx hf

end Node

end QmlCodeModel

/-! Where nodes lie that hang somewhere below another one in a sound tree. -/
namespace QmlCodeModel

/-- Layers of scripts, and what stands for those that could not be read. -/
def Kind.InScript {α : Type} (kind : Kind α) : Prop := kind.isScript ∨ kind = .error

namespace Node

variable {n x : Node} {last stop : Nat}

lemma Below.of_mem_walk (h : n.Below stop) (hx : x ∈ n.walk) : x.Below stop := by
  induction h with
  | mk self children ih =>
    rw [walk_eq] at hx
    obtain rfl | hx := List.mem_cons.mp hx
    · exact .mk self children
    obtain ⟨c,hc,hx⟩ := List.mem_flatMap.mp hx
    exact ih c hc hx

lemma Layered.of_mem_walk (h : n.Layered) (hx : x ∈ n.walk) : x.Layered :=
  fun y hy => h y (mem_walk_trans hx hy)

lemma Layered.child (h : n.Layered) (hn : n.kind.isScript) {c : Node} (hc : c ∈ n.children) : c.kind.InScript :=
  h n n.mem_walk_self hn c hc

namespace Sound

/-- Nothing starts before the node that it hangs below. -/
lemma start_le (h : n.Sound) (hx : x ∈ n.walk) : n.span.start ≤ x.span.start := by
  induction h with
  | @mk id span kind front last placed le start tight apart named sound ih =>
    rw [walk_eq] at hx
    obtain rfl | hx := List.mem_cons.mp hx
    · exact Nat.le_refl _
    obtain ⟨c,hc,hx⟩ := List.mem_flatMap.mp hx
    refine Nat.le_trans ?_ (ih c hc hx)
    have hfront := start c hc
    obtain ⟨name,y,rfl,rfl,-⟩ | ⟨y,rfl,rfl⟩ | ⟨-,-,rfl⟩ := placed.trichotomy
    · exact hfront
    · obtain rfl : c = y := by simpa [children,Node.kind,Kind.children] using hc
      exact Nat.le_refl _
    · exact hfront

/-- A script that is not empty ends with the tokens of the node that it hangs below. -/
lemma stop_le_of_mem_walk (h : n.Sound) (ht : n.Tight last) (hx : x ∈ n.walk) (hkind : x.kind.InScript)
    (hlt : x.span.start < x.span.stop) : x.span.stop ≤ last := by
  induction h generalizing last with
  | @mk id span kind front last' placed le start tight apart named sound ih =>
    have hself : (Node.mk id span kind).Sound := .mk front last' placed le start tight apart named sound
    rw [walk_eq] at hx
    obtain rfl | hx := List.mem_cons.mp hx
    · refine (tight_span ?_ ?_).mp ht hlt
      · rintro _ _ rfl
        simp [Node.kind,Kind.InScript,Kind.isScript] at hkind
      · rintro _ rfl
        simp [Node.kind,Kind.InScript,Kind.isScript] at hkind
    obtain ⟨c,hc,hbelow⟩ := List.mem_flatMap.mp hx
    obtain ⟨name,y,rfl,rfl,-⟩ | ⟨y,rfl,rfl⟩ | ⟨hscript,helement,rfl⟩ := placed.trichotomy
    · obtain rfl : c = y := by simpa [children,Node.kind,Kind.children] using hc
      exact ih c hc (tight_script.mp ht).2 hbelow
    · obtain rfl : c = y := by simpa [children,Node.kind,Kind.children] using hc
      exact ih c hc (tight_element.mp ht) hbelow
    · have hstop := ih c hc (tight c hc) hbelow
      have hfront := start c hc
      have hstart := (sound c hc).start_le hbelow
      have hlast := (tight_span hscript helement).mp ht
      simp only at hlast
      omega

/-- A script that is not empty lies in the span of whatever it hangs below. -/
lemma inside (h : n.Sound) (hx : x ∈ n.walk) (hkind : x.kind.InScript)
    (hlt : x.span.start < x.span.stop) : n.span.start ≤ x.span.start ∧ x.span.stop ≤ n.span.stop := by
  refine ⟨h.start_le hx,?_⟩
  exact h.stop_le_of_mem_walk h.tight_self hx hkind hlt

lemma apart (h : n.Sound) : n.children.Pairwise fun c d => c.Below d.span.start := by
  cases h with
  | mk front last placed le start tight apart => exact apart

end Sound

end Node

end QmlCodeModel
