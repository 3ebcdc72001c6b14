import QmlCodeModel.Proofs.Tree.Layout
import QmlCodeModel.Token.Basic

/-! What the layers of a tree owe to the tokens that they were read from: their names stand as tokens of the
source, and what opens a scope starts with a token of its own. -/
namespace QmlCodeModel

/-- A name that is one of these tokens, with its text and where it stands. -/
def Ident.From (tokens : List Token) (i : Ident) : Prop := ∃ t ∈ tokens, i = ⟨t.text, t.span⟩

lemma Ident.From.mono {tokens tokens' : List Token} {i : Ident} (h : i.From tokens)
    (hsub : tokens ⊆ tokens') : i.From tokens' := by
  obtain ⟨t,ht,hi⟩ := h
  exact ⟨t,hsub ht,hi⟩

/-- The names that a target binds by itself. Those in a pattern are nodes. -/
def BindingTarget.idents {α : Type} : BindingTarget α → List Ident
  | .name i => [i]
  | .pattern _ => []

/-- The name of a function, and the parameters that are plain names. -/
def FunctionParts.idents {α : Type} (f : FunctionParts α) : List Ident :=
  f.name.toList ++ f.params.flatMap fun p => p.target.idents

/-- A span starts with a token of its own, before all that lies in it. -/
structure Span.Heads (s : Span) (inner : List Node) : Prop where
  lt : s.start < s.stop
  later : ∀ c ∈ inner, s.start < c.span.start

def Kind.isBlock {α : Type} : Kind α → Bool
  | .block _ => true
  | _ => false

def Kind.isVariable {α : Type} : Kind α → Bool
  | .variableDeclaration _ _ => true
  | _ => false

/-- A name by itself, or one that stands for a property and its value. -/
def Kind.spells {α : Type} : Kind α → Bool
  | .identifier _ => true
  | .property _ _ kind _ => kind == .shorthand
  | _ => false

/-- What stands before the objects of a document. -/
def Kind.isHeader {α : Type} : Kind α → Bool
  | .importing _ _ _ | .pragma _ | .error => true
  | _ => false

/-- A block starts with its brace. Any other node may. -/
def Node.Opened (n : Node) : Prop := n.kind.isBlock → n.span.Heads n.children

/-- The names that a layer declares by itself. -/
def Kind.idents {α : Type} : Kind α → List Ident
  | .importing _ _ qualifier => qualifier.toList
  | .functionDeclaration f | .functionExpression f => f.idents
  | .classDeclaration c => c.name.toList
  | .variableDeclaration target _ => target.idents
  | .try _ param _ _ => (param.map BindingTarget.idents).getD []
  | _ => []

/-- How a layer at a span is made of its parts. -/
def Kind.Shaped (span : Span) : Kind Node → Prop
  | .document headers _ => ∀ c ∈ headers, c.kind.isHeader
  | .scriptBinding _ statement => statement.Opened
  | .publicMember m => ∀ x ∈ m.statement, x.Opened
  | .variableStatement _ declarations => ∀ d ∈ declarations, d.kind.isVariable
  | .try _ _ handler _ => ∀ h ∈ handler, h.kind.isBlock
  | .functionDeclaration f | .functionExpression f => span.Heads f.children
  | _ => True

/-- A layer that was read at a span from these tokens. -/
structure Kind.Formed (tokens : List Token) (span : Span) (kind : Kind Node) : Prop where
  shaped : kind.Shaped span
  named : ∀ i ∈ kind.idents, i.From tokens
  spelled : ∀ name, kind = .identifier name → Ident.From tokens ⟨name, span⟩
  /-- A name with a default and no colon is one of the tokens of its property, but not the last. -/
  shorthand : ∀ name value isStatic, kind = .property (.name name) (some value) .shorthand isStatic →
    (∃ text, value.kind = .identifier text) ∨
      ∃ t ∈ tokens, t.text = name ∧ span.start ≤ t.span.start ∧ t.span.stop < span.stop

namespace Kind

variable {tokens tokens' : List Token} {span : Span} {kind : Kind Node}

lemma Formed.mono (h : kind.Formed tokens span) (hsub : tokens ⊆ tokens') : kind.Formed tokens' span := by
  refine ⟨h.shaped,fun i hi => (h.named i hi).mono hsub,fun name hname => (h.spelled name hname).mono hsub,?_⟩
  refine fun name value isStatic hkind => (h.shorthand name value isStatic hkind).imp_right ?_
  rintro ⟨t,ht,h⟩
  exact ⟨t,hsub ht,h⟩

/-- A layer that spells no name owes nothing but its shape and the names that it declares. -/
lemma Formed.of_idents (hshaped : kind.Shaped span) (hnamed : ∀ i ∈ kind.idents, i.From tokens)
    (h : kind.spells = false) : kind.Formed tokens span := by
  refine ⟨hshaped,hnamed,?_,?_⟩
  · rintro name rfl
    simp [spells] at h
  · rintro name value isStatic rfl
    simp [spells] at h

lemma Formed.of_shaped (hshaped : kind.Shaped span) (hidents : kind.idents = []) (h : kind.spells = false) :
    kind.Formed tokens span :=
  .of_idents hshaped (hidents ▸ List.forall_mem_nil _) h

lemma formed_of_isPlain (h : kind.isPlain) : kind.Formed tokens span := by
  refine .of_shaped ?_ ?_ ?_
  · cases kind
    case publicMember m =>
      simp only [isPlain,Bool.and_eq_true,Option.isNone_iff_eq_none] at h
      simp [Shaped,h.2]
    all_goals first | exact absurd h Bool.false_ne_true | trivial
  · cases kind
    all_goals first | exact absurd h Bool.false_ne_true | rfl
  · cases kind
    case property key value kind isStatic => simpa [isPlain,spells] using h
    all_goals first | exact absurd h Bool.false_ne_true | rfl

end Kind

end QmlCodeModel
