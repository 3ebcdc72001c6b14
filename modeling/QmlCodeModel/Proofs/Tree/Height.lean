import Mathlib.Data.List.MinMax
import Mathlib.Order.Nat
import QmlCodeModel.Proofs.Token.Bracket
import QmlCodeModel.Proofs.Tree.Objects

/-! How high a tree is, and how much of its height is counted nesting. The operators of a row and the tails of an
operand are put around what stands before them, one after the other, so that a tree grows with the length of a
row although nothing in it is nested deeper. Powers group to the right: the right operand of a power is read
within it, and goes deeper by as many powers as follow one another, but no level is counted for that. -/
namespace QmlCodeModel

namespace Kind

variable {α : Type}

/-- The operand around which a layer has been put: what stands before an operator or a tail. -/
def spine : Kind α → List α
  | .member owner _ _ => [owner]
  | .index owner _ _ => [owner]
  | .call callee _ _ => [callee]
  | .taggedTemplate tag _ => [tag]
  | .binary _ left _ => [left]
  | _ => []

/-- The right operand of a power, which is nested in the power without a level of its own. -/
def exponent : Kind α → List α
  | .binary operator _ right => if operator = "**" then [right] else []
  | _ => []

/-- What stands below a layer and is on the same level. -/
def uncounted (kind : Kind α) : List α := kind.spine ++ kind.exponent

/-- What is nested in a layer: all that hangs below it and is not on the same level. -/
def inner : Kind α → List α
  | .member _ _ _ => []
  | .index _ key _ => [key]
  | .call _ arguments _ => arguments
  | .taggedTemplate _ quasi => [quasi]
  | .binary operator _ right => if operator = "**" then [] else [right]
  | kind => kind.children

lemma children_eq (kind : Kind α) : kind.children = kind.uncounted ++ kind.inner := by
  cases kind
  case binary operator left right =>
    simp only [children,uncounted,spine,exponent,inner]
    split <;> rfl
  all_goals rfl

lemma mem_children {kind : Kind α} {c : α} : c ∈ kind.children ↔ c ∈ kind.uncounted ∨ c ∈ kind.inner := by
  rw [children_eq,List.mem_append]

end Kind

namespace Node

variable {n : Node} {most : Nat}

lemma foldr_max_le {l : List Nat} : l.foldr max 0 ≤ most ↔ ∀ k ∈ l, k ≤ most :=
  ⟨fun h _ hk => Nat.le_trans (List.le_max_of_le hk (Nat.le_refl _)) h,List.max_le_of_forall_le l most⟩

lemma foldr_max_attach_le {below : List Node} {f : Node → Nat} :
    (below.attach.map fun ⟨c, _⟩ => f c).foldr max 0 ≤ most ↔ ∀ c ∈ below, f c ≤ most := by
  rw [foldr_max_le]
  simp only [List.forall_mem_map,List.mem_attach,forall_const,Subtype.forall]

lemma sizeOf_lt_of_mem_uncounted {c : Node} (h : c ∈ n.kind.uncounted) : sizeOf c < sizeOf n :=
  sizeOf_lt_of_mem_children (Kind.mem_children.mpr (.inl h))

lemma sizeOf_lt_of_mem_inner {c : Node} (h : c ∈ n.kind.inner) : sizeOf c < sizeOf n :=
  sizeOf_lt_of_mem_children (Kind.mem_children.mpr (.inr h))

/-- The number of steps to a child in the longest way down from a node. -/
def height (n : Node) : Nat := (n.children.attach.map fun ⟨c, _⟩ => c.height + 1).foldr max 0
termination_by sizeOf n
decreasing_by exact sizeOf_lt_of_mem_children ‹_›

/-- The largest number of steps to another level in a way down from a node. -/
def nesting (n : Node) : Nat :=
  max ((n.kind.uncounted.attach.map fun ⟨c, _⟩ => c.nesting).foldr max 0)
    ((n.kind.inner.attach.map fun ⟨c, _⟩ => c.nesting + 1).foldr max 0)
termination_by sizeOf n
decreasing_by
  · exact sizeOf_lt_of_mem_uncounted ‹_›
  · exact sizeOf_lt_of_mem_inner ‹_›

/-- How far a node runs on without another level: the number of operators and tails that were put one around the
other, and of powers that were read one within the other. -/
def run (n : Node) : Nat := (n.kind.uncounted.attach.map fun ⟨c, _⟩ => c.run + 1).foldr max 0
termination_by sizeOf n
decreasing_by exact sizeOf_lt_of_mem_uncounted ‹_›

lemma height_le : n.height ≤ most ↔ ∀ c ∈ n.children, c.height < most := by
  rw [height]
  exact foldr_max_attach_le (f := fun c => c.height + 1)

lemma nesting_le :
    n.nesting ≤ most ↔ (∀ c ∈ n.kind.uncounted, c.nesting ≤ most) ∧ ∀ c ∈ n.kind.inner, c.nesting < most := by
  rw [nesting,Nat.max_le]
  exact and_congr foldr_max_attach_le (foldr_max_attach_le (f := fun c => c.nesting + 1))

lemma run_le : n.run ≤ most ↔ ∀ c ∈ n.kind.uncounted, c.run < most := by
  rw [run]
  exact foldr_max_attach_le (f := fun c => c.run + 1)

lemma height_of_bare (h : n.children = []) : n.height = 0 := by
  rw [← Nat.le_zero,height_le]
  simp [h]

lemma height_of_children {c : Node} (h : n.children = [c]) : n.height = c.height + 1 := by
  apply Nat.le_antisymm
  · rw [height_le,h,List.forall_mem_singleton]
    exact Nat.lt_succ_self _
  · exact height_le.mp (Nat.le_refl n.height) c (by simp [h])

/-- The longest run anywhere in a tree. -/
def longestRun (n : Node) : Nat := (n.walk.map run).foldr max 0

lemma run_le_longestRun {n x : Node} (h : x ∈ n.walk) : x.run ≤ n.longestRun :=
  foldr_max_le.mp (Nat.le_refl _) _ (List.mem_map_of_mem h)

/-- Where no run is longer than this, every step to another level is followed by no more steps on the same one. -/
lemma height_le_of_run {longest : Nat} (h : ∀ x ∈ n.walk, x.run ≤ longest) :
    n.height ≤ n.run + n.nesting * (longest + 1) := by
  induction n using walk.induct with
  | case1 n ih =>
    rw [height_le]
    intro c hc
    have hbelow := ih c hc fun x hx => h x (mem_walk_of_mem_children hc hx)
    obtain hsame | hinner := Kind.mem_children.mp hc
    · have hrun := run_le.mp (Nat.le_refl n.run) c hsame
      have hnesting := (nesting_le.mp (Nat.le_refl n.nesting)).1 c hsame
      have := Nat.mul_le_mul_right (longest + 1) hnesting
      omega
    · have hrun := h c (mem_walk_of_mem_children hc c.mem_walk_self)
      have hnesting := (nesting_le.mp (Nat.le_refl n.nesting)).2 c hinner
      have := Nat.mul_le_mul_right (longest + 1) (Nat.succ_le_of_lt hnesting)
      rw [Nat.succ_mul] at this
      omega

/-- A tree is no higher than its nesting and its longest run let it be. -/
theorem height_lt (n : Node) : n.height < (n.nesting + 1) * (n.longestRun + 1) := by
  have hheight : n.height ≤ n.run + n.nesting * (n.longestRun + 1) :=
    height_le_of_run fun _ => run_le_longestRun
  have hrun := run_le_longestRun n.mem_walk_self
  rw [Nat.succ_mul]
  omega

end Node

/-! How deep the nodes of a tree stand in brackets, statements and operators. -/

/-- The number of brackets that are open after the tokens before an offset. -/
def Bracket.openedAt (tokens : List Token) (offset : Nat) : Nat :=
  ((nest [] (tokens.takeWhile fun t => t.span.start < offset)).getD []).length

/-- What stands one statement or one operator deeper than a layer: statements in rows and as bodies, and what
stands behind an operator, apart from the right operands in a row of operators. Heritages and callees of `new`
are operands of this kind. -/
def Kind.deeper {α : Type} : Kind α → List α
  | .program elements => elements
  | .block statements => statements
  | .if _ consequent alternate => consequent :: alternate.toList
  | .doWhile body _ => [body]
  | .while _ body => [body]
  | .for _ _ _ body => [body]
  | .forEach _ _ _ body => [body]
  | .case _ body => body
  | .labelled _ body => [body]
  | .functionExpression parts => if parts.arrow then [parts.body] else []
  | .classDeclaration parts => parts.heritage.toList
  | .classExpression parts => parts.heritage.toList
  | .new callee _ => [callee]
  | .unary _ argument => [argument]
  | .update _ before argument => if before then [argument] else []
  | .assign _ _ value => [value]
  | .conditional _ consequent alternate => [consequent, alternate]
  | .yield argument _ => argument.toList
  | .await argument => [argument]
  | _ => []

lemma Kind.mem_children_of_deeper {α : Type} {kind : Kind α} {c : α} (h : c ∈ kind.deeper) :
    c ∈ kind.children := by
  cases kind
  case functionExpression parts =>
    simp only [deeper] at h
    split at h
    · simpa [children,FunctionParts.children] using .inr (List.mem_singleton.mp h)
    · cases h
  case update operator before argument =>
    simp only [deeper] at h
    split at h
    · exact h
    · cases h
  all_goals first | exact h | (cases h; done) | simp_all [deeper,children,ClassParts.children]

namespace Node

variable {n : Node} {opened opened' : Nat → Nat} {most : Nat}

/-- The largest number of levels around a node of a tree: the brackets that are open where it starts, and the
statements and operators on the way down to it. -/
def levels (opened : Nat → Nat) (n : Node) : Nat :=
  max (opened n.span.start) (max ((n.children.attach.map fun ⟨c, _⟩ => c.levels opened).foldr max 0)
    ((n.kind.deeper.attach.map fun ⟨c, _⟩ => c.levels opened + 1).foldr max 0))
termination_by sizeOf n
decreasing_by
  · exact sizeOf_lt_of_mem_children ‹_›
  · exact sizeOf_lt_of_mem_children (Kind.mem_children_of_deeper ‹_›)

lemma levels_le : n.levels opened ≤ most ↔ opened n.span.start ≤ most ∧
    (∀ c ∈ n.children, c.levels opened ≤ most) ∧ ∀ c ∈ n.kind.deeper, c.levels opened < most := by
  rw [levels,Nat.max_le,Nat.max_le]
  exact and_congr Iff.rfl (and_congr foldr_max_attach_le
    (foldr_max_attach_le (f := fun c => c.levels opened + 1)))

lemma opened_le_levels (n : Node) (opened : Nat → Nat) : opened n.span.start ≤ n.levels opened :=
  (levels_le.mp (Nat.le_refl _)).1

lemma levels_le_of_mem_children {c : Node} (h : c ∈ n.children) : c.levels opened ≤ n.levels opened :=
  (levels_le.mp (Nat.le_refl _)).2.1 c h

lemma levels_lt_of_mem_deeper {c : Node} (h : c ∈ n.kind.deeper) : c.levels opened < n.levels opened :=
  (levels_le.mp (Nat.le_refl _)).2.2 c h

/-- A bracket that counts twice makes a tree at most twice as deep. -/
lemma levels_double_le (n : Node) (opened : Nat → Nat) :
    n.levels (fun offset => 2 * opened offset) ≤ 2 * n.levels opened := by
  induction n using walk.induct with
  | case1 n ih =>
    refine levels_le.mpr ⟨?_,fun c hc => ?_,fun c hc => ?_⟩
    · exact Nat.mul_le_mul_left 2 (n.opened_le_levels opened)
    · exact Nat.le_trans (ih c hc) (Nat.mul_le_mul_left 2 (levels_le_of_mem_children hc))
    · have hbelow := ih c (Kind.mem_children_of_deeper hc)
      have hlt : c.levels opened < n.levels opened := levels_lt_of_mem_deeper hc
      omega

end Node

end QmlCodeModel
