import QmlCodeModel.Proofs.Grammar.Source
import QmlCodeModel.Proofs.Tree.Height

/-! How deep the nodes are nested that a part of the grammar answers. A part keeps the depth of the state
that it starts from, so what it answers depends on this depth only, and the rules below need no states. -/
namespace QmlCodeModel.Grammar

/-- No node of these is nested deeper. -/
def Shallow (most : Nat) (xs : List Node) : Prop := ∀ x ∈ xs, x.nesting ≤ most

namespace Shallow

variable {most more : Nat} {x : Node} {xs ys : List Node}

lemma mono (h : Shallow most xs) (hle : most ≤ more) : Shallow more xs :=
  fun x hx => Nat.le_trans (h x hx) hle

@[simp] lemma nil : Shallow most [] := by simp [Shallow]

@[simp] lemma cons_iff : Shallow most (x :: xs) ↔ x.nesting ≤ most ∧ Shallow most xs := by simp [Shallow]

@[simp] lemma append_iff : Shallow most (xs ++ ys) ↔ Shallow most xs ∧ Shallow most ys := by
  simp [Shallow,or_imp,forall_and]

end Shallow

/-- What a part answers at a depth is nested no deeper than this. -/
def Nests {α : Type} [Bears α] (m depth most : Nat) (p : Parser α) : Prop :=
  ∀ s : State, s.Within m → s.depth = depth → ∀ a t, p s = .ok (a, t) →
    t.Within m ∧ t.depth = depth ∧ Shallow most (nodes a)

section

variable {α β : Type} [Bears α] [Bears β] {m depth most more : Nat} {p q : Parser α} {k : α → Parser β}
  {xs : List Node}

lemma Nests.mono (h : Nests m depth most p) (hle : most ≤ more) : Nests m depth more p := by
  intro s hs hdepth a t ht
  obtain ⟨hwithin,hkept,ha⟩ := h s hs hdepth a t ht
  exact ⟨hwithin,hkept,ha.mono hle⟩

/-- Behind nodes that are known to be shallow, those of a part. -/
lemma Nests.after (hxs : Shallow most xs) (h : Nests m depth most p)
    (hk : ∀ a, Shallow most (xs ++ nodes a) → Nests m depth more (k a)) : Nests m depth more (p >>= k) := by
  intro s hs hdepth b u hu
  obtain ⟨a,t,ht,hu⟩ := bind_eq_ok hu
  obtain ⟨hwithin,hkept,ha⟩ := h s hs hdepth a t ht
  exact hk a (Shallow.append_iff.mpr ⟨hxs,ha⟩) t hwithin hkept b u hu

lemma Nests.bind (h : Nests m depth most p) (hk : ∀ a, Shallow most (nodes a) → Nests m depth more (k a)) :
    Nests m depth more (p >>= k) :=
  h.after Shallow.nil hk

/-- A part whose answer does not matter. -/
lemma Reading.nests_bind (h : Reading m p) (hk : ∀ a, Nests m depth more (k a)) :
    Nests m depth more (p >>= k) := by
  intro s hs hdepth b u hu
  obtain ⟨a,t,ht,hu⟩ := bind_eq_ok hu
  have hfollows := ((h s hs).of_ok ht).follows
  exact hk a t (hfollows.within hs) (hfollows.depth.trans hdepth) b u hu

lemma nests_pure {a : α} (h : Shallow more (nodes a)) : Nests m depth more (pure a) := by
  rintro s hs hdepth b t ⟨⟩
  exact ⟨hs,hdepth,h⟩

lemma nests_ite {c : Prop} [Decidable c] (hp : c → Nests m depth more p) (hq : ¬c → Nests m depth more q) :
    Nests m depth more (if c then p else q) := by
  split
  · exact hp ‹_›
  · exact hq ‹_›

lemma nests_map {f : α → β} (h : Nests m depth more p) (hf : ∀ a, nodes (f a) = nodes a) :
    Nests m depth more (f <$> p) := by
  rw [← bind_pure_comp]
  exact h.bind fun a ha => nests_pure (by rwa [hf])

lemma nests_start {k : Nat → Parser β} (h : ∀ start, Nests m depth more (k start)) :
    Nests m depth more (start >>= k) := fun s => h s.front s

lemma nests_upcoming {k : List Token → Parser β} (h : ∀ tokens, Nests m depth more (k tokens)) :
    Nests m depth more (upcoming >>= k) := fun s => h s.rest s

/-- Nothing here depends on the surroundings in which a part is read. -/
lemma Nests.inContext {s t : State} {a : α} (h : Nests m depth more p) (hs : s.Within m)
    (hdepth : s.depth = depth) {allowIn async generator : Bool} (allowIn' async' generator' : Bool)
    (ht : p (s.inContext allowIn async generator) = .ok (a, t)) :
    (t.inContext allowIn' async' generator').Within m ∧
      (t.inContext allowIn' async' generator').depth = depth ∧ Shallow more (nodes a) := by
  obtain ⟨hwithin,hkept,ha⟩ := h (s.inContext allowIn async generator)
    ⟨⟨hs.eof,hs.ordered,hs.texts⟩,hs.budget⟩ hdepth a t ht
  exact ⟨⟨⟨hwithin.eof,hwithin.ordered,hwithin.texts⟩,hwithin.budget⟩,hkept,ha⟩

lemma nests_withIn (allowed : Bool) (h : Nests m depth more p) : Nests m depth more (withIn allowed p) := by
  intro s hs hdepth a t ht
  obtain ⟨_,_,⟨⟩,ht⟩ := bind_eq_ok ht
  obtain ⟨_,_,⟨⟩,ht⟩ := bind_eq_ok ht
  obtain ⟨b,u,hu,⟨⟩⟩ := bind_eq_ok ht
  exact h.inContext hs hdepth s.allowIn u.inAsync u.inGenerator hu

lemma nests_inFunction (async generator : Bool) (h : Nests m depth more p) :
    Nests m depth more (inFunction async generator p) := by
  intro s hs hdepth a t ht
  obtain ⟨_,_,⟨⟩,ht⟩ := bind_eq_ok ht
  obtain ⟨_,_,⟨⟩,ht⟩ := bind_eq_ok ht
  obtain ⟨b,u,hu,⟨⟩⟩ := bind_eq_ok ht
  exact h.inContext hs hdepth u.allowIn s.inAsync s.inGenerator hu

lemma nests_optionally {present : Parser Bool} (hpresent : Reading m present) (h : Nests m depth more p) :
    Nests m depth more (optionally present p) := by
  refine hpresent.nests_bind fun _ => nests_ite (fun _ => ?_) fun _ => nests_pure (by simp)
  exact nests_map h fun a => by simp

end

/-! Nodes. -/

section

variable {m depth most more start : Nat} {kind : Kind Node} {xs : List Node}

/-- A layer put around operands on the same level, and around what is nested in it. -/
lemma nests_put {span : Span} (hsame : Shallow more kind.uncounted)
    (hinner : ∀ c ∈ kind.inner, c.nesting < more) :
    Nests m depth more (make span kind) := by
  rintro s hs hdepth n t ⟨⟩
  refine ⟨⟨⟨hs.eof,hs.ordered,hs.texts⟩,hs.budget⟩,hdepth,?_⟩
  rw [nodes_node,Shallow.cons_iff,Node.nesting_le]
  exact ⟨⟨hsame,hinner⟩,Shallow.nil⟩

lemma nests_around (hsame : Shallow more kind.uncounted) (hinner : Shallow most kind.inner)
    (hlt : most < more) : Nests m depth more (finish kind start) :=
  fun s => nests_put hsame (fun c hc => Nat.lt_of_le_of_lt (hinner c hc) hlt) s

/-- A layer around the nodes read so far. -/
lemma nests_make {span : Span} (hxs : Shallow most xs) (hkind : kind.children = xs) (hlt : most < more) :
    Nests m depth more (make span kind) := by
  subst hkind
  rw [Kind.children_eq,Shallow.append_iff] at hxs
  exact nests_put (hxs.1.mono (Nat.le_of_lt hlt)) fun c hc => Nat.lt_of_le_of_lt (hxs.2 c hc) hlt

lemma nests_finish (hxs : Shallow most xs) (hkind : kind.children = xs) (hlt : most < more) :
    Nests m depth more (finish kind start) :=
  fun s => nests_make hxs hkind hlt s

/-- A layer with nothing below it. -/
lemma nests_bare (hkind : kind.children = []) : Nests m depth more (finish kind start) := by
  rw [Kind.children_eq,List.append_eq_nil_iff] at hkind
  exact fun s => nests_put (by simp [hkind.1]) (by simp [hkind.2]) s

lemma nests_errorNode : Nests m depth more errorNode :=
  fun s => nests_put Shallow.nil (by simp [Kind.inner,Kind.children]) s

/-- A layer that is made before the end of its statement is taken. -/
lemma nests_finishStatement (hxs : Shallow most xs) (hkind : kind.children = xs) (hlt : most < more) :
    Nests m depth more (finishStatement kind start) :=
  reading_get.nests_bind fun _ => reading_endStatement.nests_bind fun _ => nests_make hxs hkind hlt

end

/-! Loops. -/

section

variable {α : Type} [Bears α] {m depth more : Nat} {round : Parser (Round α)} {part : Parser (List α)}

lemma nests_collectWithin (h : Nests m depth more round) (rounds : Nat) :
    Nests m depth more (collectWithin round rounds) := by
  induction rounds with
  | zero =>
    intro _ _ _ _ _ ht
    cases ht
  | succ rounds ih =>
    refine h.bind fun r hr => nests_ite (fun _ => ?_) fun _ => nests_pure hr
    have hitems : Shallow more (nodes r.items) := hr
    exact ih.after hitems fun later hlater => nests_pure (by simpa using hlater)

lemma nests_collect (h : Nests m depth more round) : Nests m depth more (collect round) :=
  nests_upcoming fun _ => nests_collectWithin h _

lemma nests_collectUntil {stops : Token → Bool} (h : Nests m depth more round) :
    Nests m depth more (collectUntil stops round) :=
  nests_collect (reading_peek.nests_bind fun _ => nests_ite (fun _ => nests_pure (by simp)) fun _ => h)

lemma nests_progressing {p : Parser α} (h : Nests m depth more p) : Nests m depth more (progressing p) :=
  reading_taken.nests_bind fun _ => h.bind fun _ ha => reading_taken.nests_bind fun _ =>
    (reading_skipIf _).nests_bind fun _ => nests_pure ha

lemma nests_one {p : Parser α} (h : Nests m depth more p) : Nests m depth more (one p) :=
  h.bind fun a ha => nests_pure (by simpa using ha)

lemma nests_everyRound (h : Nests m depth more part) : Nests m depth more (everyRound part) :=
  (nests_progressing h).bind fun _ hitems => nests_pure hitems

lemma nests_commaRound (h : Nests m depth more part) : Nests m depth more (commaRound part) :=
  (nests_progressing h).bind fun _ hitems => (reading_eatPunct ",").nests_bind fun _ => nests_pure hitems

lemma nests_commaSeparated {close : String} (h : Nests m depth more part) :
    Nests m depth more (commaSeparated close part) :=
  nests_collectUntil (nests_commaRound h)

/-- A loop that puts layers around an operand. -/
lemma nests_iterate {step : Node → Parser (Option Node)} {operand : Node}
    (h : ∀ n : Node, n.nesting ≤ more → Nests m depth more (step n)) (hoperand : operand.nesting ≤ more) :
    Nests m depth more (iterate step operand) := by
  refine nests_upcoming fun tokens => ?_
  generalize tokens.length + 1 = rounds
  induction rounds generalizing operand with
  | zero =>
    intro _ _ _ _ _ ht
    cases ht
  | succ rounds ih =>
    refine (h operand hoperand).bind fun next hnext => ?_
    cases next with
    | none => exact nests_pure (by simpa using hoperand)
    | some n => exact ih (by simpa using hnext)

end

/-! Goals. -/

/-- How deep a goal can be nested that is read at a depth: sixteen layers for each level that is left, apart
from those of the goal itself. -/
def room (depth : Nat) : Nat := 16 * (maxNesting - depth)

/-- How many layers a goal can put around the goals inside it. Operators of the tightest precedence put one
around an operand and its argument, and each looser precedence one more. -/
def Goal.layers : Goal → Nat
  | .statement | .primary | .initializer => 4
  | .assignment => 16
  | .unary | .newExpression => 3
  | .binary above => 3 + (11 - above)

/-- A way to read goals under which each is nested no deeper than the levels let it be. -/
structure Confines (m : Nat) (go : Reader) : Prop extends Obeys m go where
  nesting (goal : Goal) (s : State) (hs : s.Ready) (hbudget : s.budget < m) (n : Node) (t : State)
    (h : go goal s = .ok (n, t)) : n.nesting ≤ room s.depth + goal.layers

section

variable {m depth more : Nat} {go : Reader} (hgo : Confines m go)
include hgo

/-- A goal that is read one level deeper takes its layers out of those of the level. -/
lemma nests_nested (goal : Goal) (hgoal : goal.layers ≤ 16) :
    Nests m depth (room depth - (16 - goal.layers)) (nested go goal) := by
  intro s hs hdepth n t ht
  have hfollows := ((reading_nested hgo.toObeys goal s hs).of_ok ht).follows
  refine ⟨hfollows.within hs,hfollows.depth.trans hdepth,?_⟩
  rw [nodes_node,Shallow.cons_iff]
  refine ⟨?_,Shallow.nil⟩
  change (if maxNesting ≤ s.depth then _ else _ : Parser Node) s = _ at ht
  split at ht
  · cases ht
    rw [Node.nesting_le]
    simp [Node.kind,Kind.uncounted,Kind.spine,Kind.exponent,Kind.inner,Kind.children]
  · rename_i hroom
    obtain ⟨_,_,⟨⟩,ht⟩ := bind_eq_ok ht
    obtain ⟨node,u,hnode,⟨⟩⟩ := bind_eq_ok ht
    have hready : { s with depth := s.depth + 1 }.Ready := ⟨hs.eof,hs.ordered,hs.texts⟩
    have hnesting := hgo.nesting goal _ hready (State.budget_deeper hs hroom) _ _ hnode
    unfold room at *
    simp only at hnesting
    omega

lemma nests_goal (goal : Goal) (hgoal : goal.layers ≤ 16) : Nests m depth (room depth) (nested go goal) :=
  (nests_nested hgo goal hgoal).mono (Nat.sub_le _ _)

lemma nests_statement : Nests m depth (room depth) (statement go) := nests_goal hgo .statement (by decide)
lemma nests_assignment : Nests m depth (room depth) (assignment go) := nests_goal hgo .assignment (by decide)
lemma nests_primary : Nests m depth (room depth) (primary go) := nests_goal hgo .primary (by decide)
lemma nests_initializer : Nests m depth (room depth) (initializer go) := nests_goal hgo .initializer (by decide)

end

end QmlCodeModel.Grammar
