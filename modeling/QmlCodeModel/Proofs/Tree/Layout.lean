import Mathlib.Tactic.Common
import QmlCodeModel.Tree.Walk

/-! How the nodes of a tree lie in the source. Nodes side by side do not overlap, and what hangs below a
node lies in its span. Two kinds of nodes may end behind the last token that they hold: an error node that
stands for what is missing, and a script binding that ends with one. -/
namespace QmlCodeModel

/-- The members of an object in braces, or an error node for them. -/
def Kind.isBody {α : Type} : Kind α → Bool
  | .objectInitializer _ | .error => true
  | _ => false

/-- Layers of scripts: statements, expressions and their parts. -/
def Kind.isScript {α : Type} : Kind α → Bool
  | .document _ _ | .pragma _ | .importing _ _ _ | .objectDefinition _ _ | .objectInitializer _
  | .objectBinding _ _ _ _ | .scriptBinding _ _ | .arrayBinding _ _ _ | .publicMember _
  | .sourceElement _ | .enumDeclaration _ _ | .error => false
  | _ => true

/-- Where a layer stands whose first token is at `front`, when the last token taken ends at `last`, and
how its names and its parts lie in it. -/
def Kind.Placed (front last : Nat) (span : Span) : Kind Node → Prop
  | .objectDefinition typeName init =>
    span = ⟨front, last⟩ ∧ front < last ∧ typeName.joined ≠ "" ∧ front < init.span.start ∧
      init.kind.isBody
  | .objectBinding name typeName init on =>
    span = ⟨front, last⟩ ∧ front < last ∧ name.joined ≠ "" ∧ typeName.joined ≠ "" ∧
      front < init.span.start ∧ init.kind.isBody ∧ (on = false → name.span.start = front ∧ front < typeName.span.start ∧
        typeName.span.start < init.span.start ∧ typeName.span.start < last)
  | .arrayBinding _ members brackets =>
    span = ⟨front, last⟩ ∧ front ≤ brackets.start ∧ brackets.start < brackets.stop ∧
      brackets.stop = last ∧ ∀ c ∈ members, brackets.start ≤ c.span.start
  | .scriptBinding name statement =>
    span = ⟨front, statement.span.stop⟩ ∧ front < last ∧ name.joined ≠ "" ∧ name.span.start = front ∧
      front < statement.span.start
  | .sourceElement element => span = element.span
  | .publicMember m =>
    span = ⟨front, max last front⟩ ∧ (m.kind = .property → front ≤ m.name.span.start ∧
      m.name.span.start < last ∧ ∀ b ∈ m.binding, m.name.span.start < b.span.start)
  | _ => span = ⟨front, max last front⟩

/-- Layers of whole sources. -/
def Kind.isWhole {α : Type} : Kind α → Bool
  | .document _ _ | .program _ => true
  | _ => false

/-- An array that is a member of an object starts with the name that it is bound to. Whole sources are
members of nothing. -/
def Kind.Named (span : Span) : Kind Node → Prop
  | .document _ _ | .program _ => False
  | .arrayBinding name _ brackets =>
    name.joined ≠ "" ∧ name.span.start = span.start ∧ span.start < brackets.start
  | _ => True

/-- Layers of which no more is known than where they start and end. -/
def Kind.isPlain {α : Type} : Kind α → Bool
  | .document _ _ | .program _ | .objectDefinition _ _ | .objectBinding _ _ _ _ | .arrayBinding _ _ _
  | .scriptBinding _ _ | .sourceElement _ | .importing _ _ _ | .variableStatement _ _
  | .variableDeclaration _ _ | .try _ _ _ _ | .functionDeclaration _ | .classDeclaration _ | .identifier _
  | .functionExpression _ => false
  | .publicMember m => m.kind == .signal && m.statement.isNone
  | .property _ _ kind _ => kind != .shorthand
  | _ => true

lemma Kind.placed_of_isPlain {kind : Kind Node} (h : kind.isPlain) (front last : Nat) :
    kind.Placed front last ⟨front, max last front⟩ := by
  cases kind
  case publicMember m =>
    refine ⟨rfl,fun hproperty => ?_⟩
    simp [isPlain,hproperty] at h
  all_goals first | exact rfl | exact absurd h Bool.false_ne_true

lemma Kind.named_of_isPlain {kind : Kind Node} (h : kind.isPlain) (span : Span) : kind.Named span := by
  cases kind
  all_goals first | exact absurd h Bool.false_ne_true | trivial

lemma Kind.Named.isWhole {kind : Kind Node} {span : Span} (h : kind.Named span) : kind.isWhole = false := by
  cases kind
  all_goals first | rfl | exact h.elim

namespace Node

/-- The tokens of a node end at an offset or before. That of a script or an element is what it holds. -/
def Tight (last : Nat) (n : Node) : Prop :=
  match _h : n.kind with
  | .scriptBinding _ statement => n.span.start < last ∧ statement.Tight last
  | .sourceElement element => element.Tight last
  | _ => n.span.start < n.span.stop → n.span.stop ≤ last
termination_by n
decreasing_by all_goals exact sizeOf_lt_of_mem_children (by simp [children,Kind.children, *])

lemma tight_script {id last : Nat} {span : Span} {name : QualifiedName} {statement : Node} :
    (mk id span (.scriptBinding name statement)).Tight last ↔
      span.start < last ∧ statement.Tight last := by
  rw [Tight.eq_def]
  rfl

lemma tight_element {id last : Nat} {span : Span} {element : Node} :
    (mk id span (.sourceElement element)).Tight last ↔ element.Tight last := by
  rw [Tight.eq_def]
  rfl

/-- Any other node ends where its span does, if that is not empty. -/
lemma tight_span {id last : Nat} {span : Span} {kind : Kind Node}
    (hscript : ∀ name x, kind ≠ .scriptBinding name x) (helement : ∀ x, kind ≠ .sourceElement x) :
    (mk id span kind).Tight last ↔ (span.start < span.stop → span.stop ≤ last) := by
  rw [Tight.eq_def]
  split
  · exact absurd ‹_› (hscript _ _)
  · exact absurd ‹_› (helement _)
  · rfl

lemma Tight.mono {n : Node} {last last' : Nat} (h : n.Tight last) (hle : last ≤ last') :
    n.Tight last' := by
  fun_induction Node.Tight last n with
  | case1 n name x hkind ih =>
    cases n
    cases hkind
    exact tight_script.mpr ⟨Nat.lt_of_lt_of_le h.1 hle,ih h.2⟩
  | case2 n x hkind ih =>
    cases n
    cases hkind
    exact tight_element.mpr (ih h)
  | case3 n hscript helement =>
    cases n
    exact (tight_span hscript helement).mpr fun hlt => Nat.le_trans (h hlt) hle

/-- A node that is named if it is a member of an object. -/
def Named (n : Node) : Prop := n.kind.Named n.span

/-- A node and all nodes below it end at an offset or before. -/
inductive Below (stop : Nat) : Node → Prop
  | mk {id : Nat} {span : Span} {kind : Kind Node} (self : span.stop ≤ stop)
    (children : ∀ c ∈ kind.children, c.Below stop) : Below stop (.mk id span kind)

lemma Below.stop_le {stop : Nat} {n : Node} (h : n.Below stop) : n.span.stop ≤ stop := by
  cases h with
  | mk self children => exact self

lemma Below.mono {stop stop' : Nat} {n : Node} (h : n.Below stop) (hle : stop ≤ stop') :
    n.Below stop' := by
  induction h with
  | mk self children ih => exact .mk (Nat.le_trans self hle) ih

/-- A node that lies in the source as its tokens were read, with all nodes below it. -/
inductive Sound : Node → Prop
  | mk {id : Nat} {span : Span} {kind : Kind Node} (front last : Nat)
    (placed : kind.Placed front last span) (le : span.start ≤ span.stop)
    (start : ∀ c ∈ kind.children, front ≤ c.span.start)
    (tight : ∀ c ∈ kind.children, c.Tight last)
    (apart : kind.children.Pairwise fun c d => c.Below d.span.start)
    (named : (∀ m, kind ≠ .publicMember m) → ∀ c ∈ kind.children, c.Named)
    (sound : ∀ c ∈ kind.children, c.Sound) : Sound (.mk id span kind)

end Node

namespace Kind.Placed

variable {id front last : Nat} {span : Span} {kind : Kind Node}

/-- A script and an element end where what they hold does, and all other layers with the last token. -/
lemma trichotomy (h : kind.Placed front last span) :
    (∃ name x, kind = .scriptBinding name x ∧ span = ⟨front, x.span.stop⟩ ∧ front < last ∧
        front < x.span.start) ∨
      (∃ x, kind = .sourceElement x ∧ span = x.span) ∨
      (∀ name x, kind ≠ .scriptBinding name x) ∧ (∀ x, kind ≠ .sourceElement x) ∧
        span = ⟨front, max last front⟩ := by
  cases kind
  case scriptBinding name x => exact .inl ⟨name,x,rfl,h.1,h.2.1,h.2.2.2.2⟩
  case sourceElement x => exact .inr (.inl ⟨x,rfl,h⟩)
  case objectDefinition =>
    refine .inr (.inr ⟨by simp,by simp,?_⟩)
    rw [h.1,Nat.max_eq_left (Nat.le_of_lt h.2.1)]
  case objectBinding =>
    refine .inr (.inr ⟨by simp,by simp,?_⟩)
    rw [h.1,Nat.max_eq_left (Nat.le_of_lt h.2.1)]
  case arrayBinding =>
    refine .inr (.inr ⟨by simp,by simp,?_⟩)
    obtain ⟨hspan,hopen,hclose,hlast,-⟩ := h
    rw [hspan,Nat.max_eq_left (by omega)]
  case publicMember => exact .inr (.inr ⟨by simp,by simp,h.1⟩)
  all_goals exact .inr (.inr ⟨by simp,by simp,h⟩)

lemma tight (h : kind.Placed front last span) (hc : ∀ c ∈ kind.children, c.Tight last) :
    (Node.mk id span kind).Tight last := by
  obtain ⟨name,x,rfl,rfl,hlt,-⟩ | ⟨x,rfl,-⟩ | ⟨hscript,helement,rfl⟩ := h.trichotomy
  · exact Node.tight_script.mpr ⟨hlt,hc x (by simp [children])⟩
  · exact Node.tight_element.mpr (hc x (by simp [children]))
  · refine (Node.tight_span hscript helement).mpr fun hlt => ?_
    simp only at hlt ⊢
    omega

/-- A layer lies between its first token and an offset that its parts and the last token do not pass. -/
lemma bounds {stop : Nat} (h : kind.Placed front last span) (hlast : last ≤ stop) (hfront : front ≤ stop)
    (hc : ∀ c ∈ kind.children, front ≤ c.span.start ∧ c.span.start ≤ c.span.stop ∧ c.span.stop ≤ stop) :
    front ≤ span.start ∧ span.start ≤ span.stop ∧ span.stop ≤ stop := by
  obtain ⟨name,x,rfl,rfl,-⟩ | ⟨x,rfl,rfl⟩ | ⟨-,-,rfl⟩ := h.trichotomy
  · have := hc x (by simp [children])
    simp only
    omega
  · exact hc x (by simp [children])
  · simp only
    omega

end Kind.Placed

namespace Node.Sound

variable {n : Node}

/-- The span of a sound node does not end before it starts. -/
lemma span_le (h : n.Sound) : n.span.start ≤ n.span.stop := by
  cases h with
  | mk front last placed le => exact le

/-- The tokens of a sound node end in its span. -/
lemma tight_self (h : n.Sound) : n.Tight n.span.stop := by
  induction h with
  | mk front last placed le start tight apart named sound ih =>
    obtain ⟨name,x,rfl,rfl,-,hlt⟩ | ⟨x,rfl,rfl⟩ | ⟨hscript,helement,-⟩ := placed.trichotomy
    · have hx := (sound x (by simp [Kind.children])).span_le
      refine Node.tight_script.mpr ⟨?_,ih x (by simp [Kind.children])⟩
      change front < x.span.stop
      omega
    · exact Node.tight_element.mpr (ih x (by simp [Kind.children]))
    · exact (Node.tight_span hscript helement).mpr fun _ => Nat.le_refl _

lemma of_mem_children {c : Node} (h : n.Sound) (hc : c ∈ n.children) : c.Sound := by
  cases h with
  | mk front last placed le start tight apart named sound => exact sound c hc

lemma of_mem_walk {x : Node} (h : n.Sound) (hx : x ∈ n.walk) : x.Sound := by
  induction n using Node.walk.induct with
  | case1 n ih =>
    rw [walk] at hx
    obtain rfl | hx := List.mem_cons.mp hx
    · exact h
    obtain ⟨⟨c,hc⟩,-,hx⟩ := List.mem_flatMap.mp hx
    exact ih c hc (h.of_mem_children hc) hx

end Node.Sound

end QmlCodeModel
