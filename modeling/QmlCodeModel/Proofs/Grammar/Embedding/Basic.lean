import QmlCodeModel.Proofs.Grammar.Clean.Source
import QmlCodeModel.Proofs.Grammar.Relocation.Expression
import QmlCodeModel.Proofs.Tree.Bare
import QmlCodeModel.Proofs.Tree.Height

/-! A source read inside another one. There its tokens stand at other places, other tokens and nodes come
before them, and fewer levels are left. A source that is read without an error is then read to the same tree,
if it is not nested too deep for the levels that are left.

The reading by itself is run side by side with the one inside. What the levels have to suffice for is seen in
the tree that the first one makes: every level is taken by a bracket that is open, or by a statement or an
operator around a node of this tree. -/
namespace QmlCodeModel.Grammar

/-! Answers without places and numbers. -/

/-- What is left of an answer without places and numbers. -/
class Strips (α : Type) where
  Stripped : Type
  strip : α → Stripped

export Strips (strip)

section

variable {α β : Type}

instance [Placeless α] : Strips α := ⟨α, id⟩
instance : Strips Nat := ⟨Unit, fun _ => ()⟩
instance : Strips Token := ⟨Token, Token.bare⟩
instance : Strips Ident := ⟨Ident, Ident.bare⟩
instance : Strips Node := ⟨Shape, Node.shape⟩
instance : Strips (BindingTarget Node) := ⟨BindingTarget Shape, BindingTarget.over Node.shape⟩
instance : Strips (FormalParameter Node) := ⟨FormalParameter Shape, FormalParameter.over Node.shape⟩
instance : Strips (FunctionParts Node) := ⟨FunctionParts Shape, FunctionParts.over Node.shape⟩
instance : Strips (ClassParts Node) := ⟨ClassParts Shape, ClassParts.over Node.shape⟩
instance : Strips (PropertyKey Node) := ⟨PropertyKey Shape, PropertyKey.over Node.shape⟩
instance [Strips α] : Strips (Option α) := ⟨Option (Strips.Stripped α), Option.map strip⟩
instance [Strips α] : Strips (List α) := ⟨List (Strips.Stripped α), List.map strip⟩
instance [Strips α] [Strips β] : Strips (α × β) :=
  ⟨Strips.Stripped α × Strips.Stripped β, fun p => (strip p.1, strip p.2)⟩
instance [Strips α] : Strips (Round α) := ⟨List (Strips.Stripped α) × Bool, fun r => (strip r.items, r.more)⟩

end

/-- Two answers that are the same but for places and numbers. -/
structure Copy (α : Type) [Strips α] where
  left : α
  right : α
  same : strip right = strip left

namespace Copy

variable {α : Type}

/-- An answer beside itself. -/
def self [Strips α] (a : α) : Copy α := ⟨a, a, rfl⟩

@[simp] lemma placeless [Placeless α] (c : Copy α) : c.right = c.left := c.same

lemma isNone_option [Strips α] (c : Copy (Option α)) : c.right.isNone = c.left.isNone := by
  have h : (c.right.map strip).isNone = (c.left.map strip).isNone := congrArg Option.isNone c.same
  simpa using h

@[simp] lemma shape_node (c : Copy Node) : c.right.shape = c.left.shape := c.same
@[simp] lemma shape_option (c : Copy (Option Node)) : c.right.map Node.shape = c.left.map Node.shape := c.same
@[simp] lemma shape_list (c : Copy (List Node)) : c.right.map Node.shape = c.left.map Node.shape := c.same
@[simp] lemma shape_holes (c : Copy (List (Option Node))) :
    c.right.map (Option.map Node.shape) = c.left.map (Option.map Node.shape) := c.same
@[simp] lemma bare_ident (c : Copy Ident) : c.right.bare = c.left.bare := c.same
@[simp] lemma bare_label (c : Copy (Option Ident)) : c.right.map Ident.bare = c.left.map Ident.bare := c.same
@[simp] lemma over_target (c : Copy (BindingTarget Node)) :
    c.right.over Node.shape = c.left.over Node.shape := c.same
@[simp] lemma over_parameters (c : Copy (List (FormalParameter Node))) :
    c.right.map (FormalParameter.over Node.shape) = c.left.map (FormalParameter.over Node.shape) := c.same
@[simp] lemma over_function (c : Copy (FunctionParts Node)) :
    c.right.over Node.shape = c.left.over Node.shape := c.same
@[simp] lemma over_class (c : Copy (ClassParts Node)) :
    c.right.over Node.shape = c.left.over Node.shape := c.same
@[simp] lemma over_key (c : Copy (PropertyKey Node)) :
    c.right.over Node.shape = c.left.over Node.shape := c.same

end Copy

/-- Two tokens that differ in their places only. -/
lemma eq_of_bare {t t' : Token} (h : t'.bare = t.bare) : t' = { t with span := t'.span } := by
  cases t
  cases t'
  simp only [Token.bare,Token.mk.injEq,true_and] at h ⊢
  exact h

/-! States before the same tokens. -/

namespace State

/-- The same tokens are to come, in the same surroundings. -/
structure Faces (s s' : State) : Prop where
  rest : s'.rest.map Token.bare = s.rest.map Token.bare
  eof : s'.eof.bare = s.eof.bare
  allowIn : s'.allowIn = s.allowIn
  inAsync : s'.inAsync = s.inAsync
  inGenerator : s'.inGenerator = s.inGenerator

namespace Faces

variable {s s' : State}

lemma refl (s : State) : s.Faces s := ⟨rfl,rfl,rfl,rfl,rfl⟩

lemma length_eq (h : s.Faces s') : s'.rest.length = s.rest.length := by
  simpa using congrArg List.length h.rest

lemma drop (h : s.Faces s') (n : Nat) : (s'.rest.drop n).map Token.bare = (s.rest.drop n).map Token.bare := by
  rw [List.map_drop,List.map_drop,h.rest]

lemma ahead (h : s.Faces s') (n : Nat) : (s'.ahead n).bare = (s.ahead n).bare := by
  have head (s : State) : (s.ahead n).bare = ((s.rest.drop n).map Token.bare).headD s.eof.bare := by
    unfold State.ahead
    cases s.rest.drop n <;> rfl
  rw [head,head,h.drop,h.eof]

lemma peek (h : s.Faces s') : s'.peek.bare = s.peek.bare := h.ahead 0

lemma eq_ahead (h : s.Faces s') (n : Nat) : s'.ahead n = { s.ahead n with span := (s'.ahead n).span } :=
  eq_of_bare (h.ahead n)

lemma eq_peek (h : s.Faces s') : s'.peek = { s.peek with span := s'.peek.span } := eq_of_bare h.peek

lemma advance (h : s.Faces s') : s.advance.Faces s'.advance := by
  have hrest := h.rest
  unfold State.advance
  cases hs : s.rest with
  | nil =>
    rw [hs,List.map_nil,List.map_eq_nil_iff] at hrest
    simpa only [hrest] using h
  | cons t rest =>
    cases hs' : s'.rest with
    | nil => simp [hs,hs'] at hrest
    | cons t' rest' =>
      rw [hs,hs',List.map_cons,List.map_cons,List.cons.injEq] at hrest
      exact ⟨hrest.2,h.eof,h.allowIn,h.inAsync,h.inGenerator⟩

lemma arrowListAt (h : s.Faces s') (n : Nat) : s'.arrowListAt n = s.arrowListAt n := by
  unfold State.arrowListAt
  rw [h.eq_ahead n,← closesBeforeArrow_bare,h.drop,closesBeforeArrow_bare]
  rfl

lemma startsAsyncArrow (h : s.Faces s') : s'.startsAsyncArrow = s.startsAsyncArrow := by
  unfold State.startsAsyncArrow
  rw [h.eq_peek,h.eq_ahead 1,h.eq_ahead 2,h.arrowListAt]
  rfl

lemma arrowHeadAt (h : s.Faces s') (n : Nat) : s'.arrowHeadAt n = s.arrowHeadAt n := by
  unfold State.arrowHeadAt
  rw [h.eq_ahead n,h.eq_ahead (n + 1),h.arrowListAt]
  rfl

end Faces

/-- Inside another source, before the same tokens: so many tokens more have been taken, no error has been
reported, and the reading is at this depth. -/
structure Mirrors (lead depth : Nat) (s s' : State) : Prop extends s.Faces s' where
  taken : s'.taken = s.taken + lead
  blank : s'.diagnostics = #[]
  depth : s'.depth = depth

lemma Mirrors.advance {lead depth : Nat} {s s' : State} (h : s.Mirrors lead depth s') :
    s.advance.Mirrors lead depth s'.advance := by
  refine ⟨h.toFaces.advance,?_,?_,?_⟩
  · have htaken (s : State) : s.advance.taken + s.advance.rest.length = s.taken + s.rest.length :=
      s.follows_advance.taken
    have hlength := h.length_eq
    have hlater := h.toFaces.advance.length_eq
    have := htaken s
    have := htaken s'
    have := h.taken
    omega
  · unfold State.advance
    split <;> exact h.blank
  · rw [s'.follows_advance.depth,h.depth]

end State

/-! Brackets that are open. -/

/-- What brackets do to those that are open does not depend on more of them below. -/
lemma nest_append_below {opened later : List Bracket} {ts : List Token} (below : List Bracket)
    (h : Bracket.nest opened ts = some later) : Bracket.nest (opened ++ below) ts = some (later ++ below) := by
  have step {opened later : List Bracket} {t : Token} (h : Bracket.step opened t = some later) :
      Bracket.step (opened ++ below) t = some (later ++ below) := by
    unfold Bracket.step at h ⊢
    split at h
    · cases h
      rfl
    · split at h
      · split at h
        · rename_i b _ hhead
          cases h
          obtain ⟨rest,rfl⟩ : ∃ rest, opened = b :: rest := by
            cases opened with
            | nil => simp at hhead
            | cons c rest => exact ⟨rest,by simpa using hhead⟩
          simp
        · cases h
      · cases h
        rfl
  induction ts generalizing opened with
  | nil =>
    cases h
    rfl
  | cons t ts ih =>
    simp only [Bracket.nest,List.foldlM_cons,Option.bind_eq_bind,Option.bind_eq_some_iff] at h ⊢
    obtain ⟨next,hnext,hlater⟩ := h
    exact ⟨next ++ below,step hnext,ih hlater⟩

/-- A source has been read without an error up to a state, with these brackets open. -/
structure Reached (tokens : List Token) (budget : Nat) (stack : List Bracket) (s : State) : Prop
    extends s.Within budget where
  blank : s.diagnostics = #[]
  past : ∃ ts, tokens = ts ++ s.rest ∧ Bracket.nest [] ts = some stack ∧ ∀ t ∈ ts, t.span.start < s.front

namespace Reached

variable {tokens : List Token} {budget : Nat} {stack stack' : List Bracket} {s t : State}

/-- A token has been taken that does this to the open brackets. -/
lemma advance (h : Reached tokens budget stack s) (hkind : s.peek.kind ≠ .eof)
    (hstep : Bracket.step stack s.peek = some stack') : Reached tokens budget stack' s.advance := by
  have hne : s.rest ≠ [] := State.rest_ne_nil h.eof hkind
  have hfollows := s.follows_advance
  refine ⟨hfollows.within h.toWithin,?_,?_⟩
  · unfold State.advance
    split <;> exact h.blank
  obtain ⟨ts,htokens,hnest,hbefore⟩ := h.past
  obtain ⟨x,rest,hrest⟩ := List.exists_cons_of_ne_nil hne
  have hpeek : s.peek = x := by simp [State.peek,hrest]
  have hadvance : s.advance.rest = rest := by simp [State.advance,hrest]
  have hfront : s.front < s.advance.front := by
    have := State.front_lt_advance h.ordered hne
    have := (hfollows.order h.ordered).1.previousStop_le_front
    omega
  refine ⟨ts ++ [x],?_,?_,fun t ht => ?_⟩
  · rw [htokens,hrest,hadvance,List.append_assoc,List.singleton_append]
  · rw [Bracket.nest_append,hnest]
    simpa [Bracket.nest,hpeek] using hstep
  · obtain ht | ht := List.mem_append.mp ht
    · exact Nat.lt_trans (hbefore t ht) hfront
    · rw [List.mem_singleton.mp ht,← hpeek]
      exact hfront

/-- The brackets that are open in a state are open around all that a balanced part reads from there on. -/
lemma le_openedAt (h : Reached tokens budget stack s) {ts : List Token} (hrest : s.rest = ts ++ t.rest)
    (hnest : Bracket.nest [] ts = some []) {offset : Nat} (hfront : s.front ≤ offset) (hnext : offset ≤ t.front) :
    stack.length ≤ Bracket.openedAt tokens offset := by
  obtain ⟨past,htokens,hpast,hbefore⟩ := h.past
  have hlater : (t.rest.takeWhile fun x => x.span.start < offset) = [] := by
    cases hcase : t.rest with
    | nil => rfl
    | cons x rest =>
      have : t.front = x.span.start := by simp [State.front,State.peek,hcase]
      rw [List.takeWhile_cons_of_neg]
      simp only [decide_eq_true_eq]
      omega
  have hprefix : (s.rest.takeWhile fun x => x.span.start < offset) <+: ts := by
    rw [hrest,List.takeWhile_append]
    split
    · rw [hlater]
      simp
    · exact List.takeWhile_prefix _
  have hall : (tokens.takeWhile fun x => x.span.start < offset) =
      past ++ s.rest.takeWhile fun x => x.span.start < offset := by
    rw [htokens,List.takeWhile_append_of_pos]
    intro x hx
    have := hbefore x hx
    simp only [decide_eq_true_eq]
    omega
  obtain ⟨later,hsplit⟩ := hprefix
  rw [← hsplit,Bracket.nest_append,Option.bind_eq_some_iff] at hnest
  obtain ⟨opened,hopened,-⟩ := hnest
  have hbelow : Bracket.nest stack (s.rest.takeWhile fun x => x.span.start < offset) =
      some (opened ++ stack) := nest_append_below stack hopened
  unfold Bracket.openedAt
  rw [hall,Bracket.nest_append,hpast,Option.bind_some,hbelow]
  simp

end Reached

/-! Readings side by side. -/

/-- How a source stands in another one, where a part of it is read. -/
structure Embedding where
  /-- The tokens of the source. -/
  tokens : List Token
  /-- How many tokens stand before it. -/
  lead : Nat
  /-- How many goals can be opened inside one another. -/
  budget : Nat
  /-- The depth at which the part is read inside the other source. -/
  depth : Nat

namespace Embedding

variable {e : Embedding} {around i j : Nat} {stack : List Bracket} {x : Node} {xs ys : List Node}

/-- The depth is accounted for by the open brackets, two levels for each, by the statements and operators around,
and by so many levels more. -/
def Allows (e : Embedding) (around : Nat) (stack : List Bracket) (extra : Nat) : Prop :=
  e.depth ≤ 2 * stack.length + around + extra

lemma Allows.mono (h : e.Allows around stack i) (hle : i ≤ j) : e.Allows around stack j := by
  unfold Allows at *
  omega

lemma Allows.enter (h : e.Allows around stack (i + 2)) (b : Bracket) : e.Allows around (b :: stack) i := by
  unfold Allows at *
  simp only [List.length_cons]
  omega

lemma Allows.inner (h : e.Allows around stack (i + 1)) : e.Allows (around + 1) stack i := by
  unfold Allows at *
  omega

/-- The levels that the open brackets of the source take. -/
def brackets (e : Embedding) (offset : Nat) : Nat := 2 * Bracket.openedAt e.tokens offset

/-- Levels are left for all that is around a node and in it. -/
def Admits (e : Embedding) (around : Nat) (x : Node) : Prop := around + x.levels e.brackets + 2 < maxNesting

def Fits (e : Embedding) (around : Nat) (xs : List Node) : Prop := ∀ x ∈ xs, e.Admits around x

/-- Levels are left for the nodes in an answer. -/
def Holds {α : Type} [Bears α] (e : Embedding) (around : Nat) (a : α) : Prop := e.Fits around (nodes a)

@[simp] lemma fits_nil : e.Fits around [] := by simp [Fits]

@[simp] lemma fits_cons_iff : e.Fits around (x :: xs) ↔ e.Admits around x ∧ e.Fits around xs := by simp [Fits]

@[simp] lemma fits_append_iff : e.Fits around (xs ++ ys) ↔ e.Fits around xs ∧ e.Fits around ys := by
  simp [Fits,or_imp,forall_and]

@[simp] lemma holds_some {α : Type} [Bears α] {a : α} : e.Holds around (some a) ↔ e.Holds around a := by
  simp [Holds]

lemma Admits.children {n : Node} (h : e.Admits around n) : e.Fits around n.children := by
  intro c hc
  have : c.levels e.brackets ≤ n.levels e.brackets := Node.levels_le_of_mem_children hc
  unfold Admits at *
  omega

lemma Admits.deeper {n : Node} (h : e.Admits around n) : e.Fits (around + 1) n.kind.deeper := by
  intro c hc
  have : c.levels e.brackets < n.levels e.brackets := Node.levels_lt_of_mem_deeper hc
  unfold Admits at *
  omega

end Embedding

/-- What a part has done from one state to another by an answer, and what follows for the part inside the other
source: if levels are left for all that is held now, they were left for what was held before, and the part inside
comes to the same answer. -/
structure Carried {α : Type} [Strips α] (e : Embedding) (stack : List Bracket) (before : Prop) (a : α)
    (p' : Parser α) (after : Prop) (stack' : List Bracket) (s t : State) : Prop where
  blank : s.diagnostics = #[]
  reached : Reached e.tokens e.budget stack s → Reached e.tokens e.budget stack' t
  before : Reached e.tokens e.budget stack s → after → before
  again : Reached e.tokens e.budget stack s → after → ∀ s', s.Mirrors e.lead e.depth s' →
    ∃ (b : α) (t' : State), p' s' = .ok (b, t') ∧ strip b = strip a ∧ t.Mirrors e.lead e.depth t'

/-- A part carries over from a state of the source by itself, where these brackets are open. -/
def Carries {α : Type} [Strips α] (e : Embedding) (stack : List Bracket) (before : Prop) (p p' : Parser α)
    (held : α → Prop) (stack' : List Bracket) (s : State) : Prop :=
  ∀ a t, p s = .ok (a, t) → t.diagnostics = #[] → Carried e stack before a p' (held a) stack' s t

/-- An answer that holds nothing. -/
def holdsNone {α : Type} (_ : α) : Prop := True

section

variable {α β : Type} [Strips α] [Strips β] {e : Embedding} {around : Nat} {stack stack' stack'' : List Bracket}
  {before : Prop} {p p' : Parser α} {held : α → Prop} {held' : β → Prop} {s : State}

lemma Carries.weaken {before' : Prop} (h : Carries e stack before p p' held stack' s) (hb : before → before') :
    Carries e stack before' p p' held stack' s := by
  intro a t ht hblank
  have h := h a t ht hblank
  exact ⟨h.blank,h.reached,fun hs hf => hb (h.before hs hf),h.again⟩

lemma carries_pure {a a' : α} (hsame : strip a' = strip a) (hb : held a → before) :
    Carries e stack before (pure a) (pure a') held stack s := by
  rintro _ _ ⟨⟩ hblank
  exact ⟨hblank,id,fun _ => hb,fun _ _ s' hs' => ⟨a',s',rfl,hsame,hs'⟩⟩

/-- A part and what goes on with its answer, at the state that it comes to. -/
lemma Carries.bindAt {first : Prop} {k k' : α → Parser β} (h : Carries e stack first p p' held stack' s)
    (hk : ∀ (c : Copy α) t, p s = .ok (c.left, t) →
      Carries e stack' (before ∧ held c.left) (k c.left) (k' c.right) held' stack'' t) :
    Carries e stack (first ∧ before) (p >>= k) (p' >>= k') held' stack'' s := by
  intro b u hu hblank
  obtain ⟨a,t,ht,hu⟩ := bind_eq_ok hu
  have hlater := hk (.self a) t ht b u hu hblank
  have hp := h a t ht hlater.blank
  refine ⟨hp.blank,fun hs => hlater.reached (hp.reached hs),fun hs hf => ?_,fun hs hf s' hs' => ?_⟩
  · obtain ⟨hbefore,hheld⟩ := hlater.before (hp.reached hs) hf
    exact ⟨hp.before hs hheld,hbefore⟩
  have hheld := (hlater.before (hp.reached hs) hf).2
  obtain ⟨a',t',ha',hsame,ht'⟩ := hp.again hs hheld s' hs'
  obtain ⟨b',u',hb',hsame',hu'⟩ := (hk ⟨a,a',hsame⟩ t ht b u hu hblank).again (hp.reached hs) hf t' ht'
  refine ⟨b',u',?_,hsame',hu'⟩
  simp only [Bind.bind,StateT.bind,Except.bind,ha']
  exact hb'

lemma Carries.bind {k k' : α → Parser β} (h : Carries e stack True p p' held stack' s)
    (hk : ∀ (c : Copy α) t, Carries e stack' (before ∧ held c.left) (k c.left) (k' c.right) held' stack'' t) :
    Carries e stack before (p >>= k) (p' >>= k') held' stack'' s :=
  (h.bindAt fun c t _ => hk c t).weaken And.right

/-- The first part holds what was held before. -/
lemma Carries.goOn {k k' : α → Parser β} (h : Carries e stack before p p' held stack' s)
    (hk : ∀ (c : Copy α) t, Carries e stack' (held c.left) (k c.left) (k' c.right) held' stack'' t) :
    Carries e stack before (p >>= k) (p' >>= k') held' stack'' s :=
  (h.bindAt fun c t _ => (hk c t).weaken fun hf => ⟨trivial,hf⟩).weaken And.left

/-- A part whose answer holds nothing. -/
lemma Carries.next {γ : Type} [Placeless γ] {p p' : Parser γ} {k k' : γ → Parser β}
    (h : Carries e stack True p p' holdsNone stack' s)
    (hk : ∀ a t, Carries e stack' before (k a) (k' a) held' stack'' t) :
    Carries e stack before (p >>= k) (p' >>= k') held' stack'' s := by
  refine h.bind fun c t => ?_
  rw [c.placeless]
  exact (hk c.left t).weaken fun hb => ⟨hb,trivial⟩

/-- A part that may give nothing. -/
lemma Carries.choose {p p' : Parser (Option α)} {k k' : Option α → Parser β} {held : Option α → Prop}
    (h : Carries e stack True p p' held stack' s)
    (hsome : ∀ (c : Copy α) t, Carries e stack' (before ∧ held (some c.left)) (k (some c.left))
      (k' (some c.right)) held' stack'' t)
    (hnone : ∀ t, Carries e stack' (before ∧ held none) (k none) (k' none) held' stack'' t) :
    Carries e stack before (p >>= k) (p' >>= k') held' stack'' s := by
  refine h.bind fun ⟨a,a',hsame⟩ t => ?_
  replace hsame : a'.map strip = a.map strip := hsame
  cases a with
  | none =>
    obtain rfl := Option.map_eq_none_iff.mp hsame
    exact hnone t
  | some a =>
    obtain ⟨b,rfl,hb⟩ := Option.map_eq_some_iff.mp hsame
    exact hsome ⟨a,b,hb⟩ t

lemma Carries.map {f f' : α → β} (h : Carries e stack before p p' (fun a => held' (f a)) stack' s)
    (hf : ∀ c : Copy α, strip (f' c.right) = strip (f c.left)) :
    Carries e stack before (f <$> p) (f' <$> p') held' stack' s := by
  intro b t ht hblank
  rw [← bind_pure_comp] at ht
  obtain ⟨a,u,hu,⟨⟩⟩ := bind_eq_ok ht
  have h := h a _ hu hblank
  refine ⟨h.blank,h.reached,h.before,fun hs hfits s' hs' => ?_⟩
  obtain ⟨a',t',ha',hsame,ht'⟩ := h.again hs hfits s' hs'
  refine ⟨f' a',t',?_,hf ⟨a,a',hsame⟩,ht'⟩
  rw [← bind_pure_comp]
  simp only [Bind.bind,StateT.bind,Except.bind,ha']
  rfl

lemma Carries.discard (h : Carries e stack before p p' holdsNone stack' s) :
    Carries e stack before (discard p) (discard p') holdsNone stack' s :=
  Carries.map (f := fun _ => ()) h fun _ => rfl

lemma carries_ite {c : Prop} [Decidable c] {q q' : Parser α} (hp : c → Carries e stack before p p' held stack' s)
    (hq : ¬c → Carries e stack before q q' held stack' s) :
    Carries e stack before (if c then p else q) (if c then p' else q') held stack' s := by
  split
  · exact hp ‹_›
  · exact hq ‹_›

/-! Looks at the state. -/

/-- A part of which the one inside goes on with a look at its state. -/
lemma carries_look (q : Parser β) (q' : State → Parser β)
    (h : ∀ s', s.Faces s' → Carries e stack before q (q' s') held' stack' s) :
    Carries e stack before q (fun s' => q' s' s') held' stack' s := by
  intro b t ht hblank
  have hself := h s (.refl s) b t ht hblank
  refine ⟨hself.blank,hself.reached,hself.before,fun hs hf s' hs' => ?_⟩
  exact (h s' hs'.toFaces b t ht hblank).again hs hf s' hs'

lemma carries_get {k k' : State → Parser β}
    (h : ∀ s', s.Faces s' → Carries e stack before (k s) (k' s') held' stack' s) :
    Carries e stack before (get >>= k) (get >>= k') held' stack' s :=
  carries_look (k s) k' h

/-- The next token is the same one at another place. -/
lemma carries_peek {k k' : Token → Parser β}
    (h : ∀ span, Carries e stack before (k s.peek) (k' { s.peek with span }) held' stack' s) :
    Carries e stack before (peek >>= k) (peek >>= k') held' stack' s :=
  carries_look (k s.peek) (fun s' => k' s'.peek) fun s' hs => hs.eq_peek ▸ h s'.peek.span

lemma carries_ahead {n : Nat} {k k' : Token → Parser β}
    (h : ∀ span, Carries e stack before (k (s.ahead n)) (k' { s.ahead n with span }) held' stack' s) :
    Carries e stack before (ahead n >>= k) (ahead n >>= k') held' stack' s :=
  carries_look (k (s.ahead n)) (fun s' => k' (s'.ahead n)) fun s' hs =>
    hs.eq_ahead n ▸ h (s'.ahead n).span

lemma carries_start {k k' : Nat → Parser β} (h : ∀ o o', Carries e stack before (k o) (k' o') held' stack' s) :
    Carries e stack before (start >>= k) (start >>= k') held' stack' s :=
  carries_look (k s.front) (fun s' => k' s'.front) fun s' _ => h s.front s'.front

lemma carries_atPunct {text : String} {k k' : Bool → Parser β}
    (h : Carries e stack before (k (s.peek.isPunct text)) (k' (s.peek.isPunct text)) held' stack' s) :
    Carries e stack before (atPunct text >>= k) (atPunct text >>= k') held' stack' s :=
  carries_look (k (s.peek.isPunct text)) (fun s' => k' (s'.peek.isPunct text)) fun _ hs =>
    hs.eq_peek ▸ h

lemma carries_atName {text : String} {k k' : Bool → Parser β}
    (h : Carries e stack before (k (s.peek.isName text)) (k' (s.peek.isName text)) held' stack' s) :
    Carries e stack before (atName text >>= k) (atName text >>= k') held' stack' s :=
  carries_look (k (s.peek.isName text)) (fun s' => k' (s'.peek.isName text)) fun _ hs =>
    hs.eq_peek ▸ h

/-- As many tokens are to come. -/
lemma carries_upcoming (k k' : Nat → Parser β)
    (h : ∀ n, Carries e stack before (k n) (k' n) held' stack' s) :
    Carries e stack before (upcoming >>= fun l => k l.length) (upcoming >>= fun l => k' l.length) held' stack' s :=
  carries_look (k s.rest.length) (fun s' => k' s'.rest.length) fun _ hs => hs.length_eq ▸ h _

/-! Errors. -/

/-- What goes on after an error has been reported ends with an error. -/
def Sticks (p : Parser α) : Prop := ∀ s a t, p s = .ok (a, t) → t.diagnostics = #[] → s.diagnostics = #[]

omit [Strips α] in
lemma sticks_pure (a : α) : Sticks (pure a : Parser α) := by
  rintro s _ _ ⟨⟩
  exact id

lemma sticks_finish (kind : Kind Node) (start : Nat) : Sticks (finish kind start) := by
  rintro s _ _ ⟨⟩
  exact id

lemma sticks_errorNode : Sticks errorNode := by
  rintro s _ _ ⟨⟩
  exact id

lemma sticks_skip : Sticks (discard bump) := by
  rintro s _ _ ⟨⟩
  unfold State.advance
  split <;> exact id

omit [Strips α] [Strips β] in
lemma Sticks.bind {k : α → Parser β} (h : Sticks p) (hk : ∀ a, Sticks (k a)) : Sticks (p >>= k) := by
  intro s b u hu hblank
  obtain ⟨a,t,ht,hu⟩ := bind_eq_ok hu
  exact h s a t ht (hk a t b u hu hblank)

lemma Carries.sticks (h : ∀ s, Carries e stack before p p' held stack' s) : Sticks p :=
  fun s a t ht hblank => (h s a t ht hblank).blank

/-- Where an error is reported, nothing has to carry over. -/
lemma carries_report {fault : GrammarFault} {k : Unit → Parser β} {q' : Parser β} (offset : Nat)
    (h : Sticks (k ())) : Carries e stack before (report offset fault >>= k) q' held' stack' s := by
  intro b t ht hblank
  exact absurd (h (s.report offset fault) b t ht hblank) (Since.report_ne_empty _ _ _)

lemma carries_reportHere {fault : GrammarFault} {k : Unit → Parser β} {q' : Parser β} (h : Sticks (k ())) :
    Carries e stack before (reportHere fault >>= k) q' held' stack' s := carries_report s.front h

lemma carries_missing {fault : GrammarFault} {q' : Parser Node} {held : Node → Prop} :
    Carries e stack before (missingPrimary fault) q' held stack' s := carries_reportHere sticks_errorNode

lemma carries_reportIf (wrong : Bool) (fault : GrammarFault) :
    Carries e stack True (reportIf wrong fault) (reportIf wrong fault) holdsNone stack s :=
  carries_ite (fun _ => carries_reportHere (sticks_pure ())) fun _ => carries_pure rfl fun _ => trivial

/-! Tokens. -/

/-- The next token is taken by a part that knows what it does to the open brackets. -/
lemma carries_advance (q : Parser β) (q' : State → Parser β)
    (hstep : Reached e.tokens e.budget stack s → Reached e.tokens e.budget stack' s.advance)
    (h : ∀ s', s.Faces s' → Carries e stack' before q (q' s') held' stack'' s.advance) :
    Carries e stack before (fun s => q s.advance) (fun s' => q' s' s'.advance) held' stack'' s := by
  intro b t ht hblank
  have hself := h s (.refl s) b t ht hblank
  refine ⟨?_,fun hs => hself.reached (hstep hs),fun hs => hself.before (hstep hs),fun hs hf s' hs' => ?_⟩
  · have hadvance : s.advance.diagnostics = s.diagnostics := by
      unfold State.advance
      split <;> rfl
    exact hadvance ▸ hself.blank
  · exact (h s' hs'.toFaces b t ht hblank).again (hstep hs) hf s'.advance hs'.advance

lemma carries_bump {k k' : Token → Parser β} (hpeek : s.peek.Inner)
    (h : ∀ span, Carries e stack before (k s.peek) (k' { s.peek with span }) held' stack' s.advance) :
    Carries e stack before (bump >>= k) (bump >>= k') held' stack' s :=
  carries_advance (k s.peek) (fun s' => k' s'.peek) (fun hs => hs.advance hpeek.kind (hpeek.plain stack))
    fun s' hs => hs.eq_peek ▸ h s'.peek.span

lemma carries_skip {k k' : Unit → Parser β} (hpeek : s.peek.Inner)
    (h : Carries e stack before (k ()) (k' ()) held' stack' s.advance) :
    Carries e stack before (discard bump >>= k) (discard bump >>= k') held' stack' s :=
  carries_advance (k ()) (fun _ => k' ()) (fun hs => hs.advance hpeek.kind (hpeek.plain stack)) fun _ _ => h

lemma carries_skipIf {asked : Bool} {k k' : Unit → Parser β} (hpeek : asked → s.peek.Inner)
    (htrue : asked → Carries e stack before (k ()) (k' ()) held' stack' s.advance)
    (hfalse : ¬asked → Carries e stack before (k ()) (k' ()) held' stack' s) :
    Carries e stack before (skipIf asked >>= k) (skipIf asked >>= k') held' stack' s := by
  cases asked with
  | true => exact carries_skip (hpeek rfl) (htrue rfl)
  | false => exact hfalse nofun

/-- After a token has been taken, one goal less can be opened. -/
lemma carries_skipOne {k k' : Unit → Parser β} (hpeek : s.peek.Inner)
    (h : Carries { e with budget := e.budget - 1 } stack before (k ()) (k' ()) held' stack' s.advance) :
    Carries e stack before (discard bump >>= k) (discard bump >>= k') held' stack' s := by
  have hless (hs : Reached e.tokens e.budget stack s) : Reached e.tokens (e.budget - 1) stack s.advance := by
    have hadvance := hs.advance hpeek.kind (hpeek.plain stack)
    have hshrinks := hs.toWithin.advance_lt hpeek.kind
    have hdepth := s.follows_advance.depth
    have hbudget := hs.budget
    refine ⟨⟨hadvance.toReady,?_⟩,hadvance.blank,hadvance.past⟩
    unfold State.budget at *
    omega
  intro b t ht hblank
  have h := h b t ht hblank
  have hfollows := s.follows_advance
  refine ⟨?_,fun hs => ?_,fun hs => h.before (hless hs),fun hs hf s' hs' => ?_⟩
  · have hadvance : s.advance.diagnostics = s.diagnostics := by
      unfold State.advance
      split <;> rfl
    exact hadvance ▸ h.blank
  · have ht := h.reached (hless hs)
    exact ⟨⟨ht.toReady,Nat.le_trans ht.budget (Nat.sub_le _ _)⟩,ht.blank,ht.past⟩
  · exact h.again (hless hs) hf s'.advance hs'.advance

/-- An opening bracket is taken. -/
lemma carries_open {k k' : Unit → Parser β} (b : Bracket) (hpeek : s.peek.isPunct b.opening)
    (h : Carries e (b :: stack) before (k ()) (k' ()) held' stack' s.advance) :
    Carries e stack before (discard bump >>= k) (discard bump >>= k') held' stack' s :=
  carries_advance (k ()) (fun _ => k' ())
    (fun hs => hs.advance (kind_ne_eof_of_isPunct _ hpeek) (Bracket.step_of_opening b stack hpeek)) fun _ _ => h

/-- A token that passes a test is taken, and left where it does not. -/
lemma carries_eatWith {test : Token → Bool} {k k' : Bool → Parser β} (hblind : Blind test)
    (hstep : test s.peek → Reached e.tokens e.budget stack s → Reached e.tokens e.budget stack' s.advance)
    (htrue : test s.peek → Carries e stack' before (k true) (k' true) held' stack'' s.advance)
    (hfalse : ¬test s.peek → Carries e stack before (k false) (k' false) held' stack'' s) :
    Carries e stack before (eat test >>= k) (eat test >>= k') held' stack'' s := by
  unfold eat
  rw [bind_assoc,bind_assoc]
  refine carries_peek fun span => ?_
  rw [hblind s.peek span]
  cases htest : test s.peek with
  | true => exact carries_advance (k true) (fun _ => k' true) (hstep htest) fun _ _ => htrue htest
  | false => exact hfalse (by simp [htest])

lemma carries_eat {test : Token → Bool} {k k' : Bool → Parser β} (hblind : Blind test)
    (hinner : ∀ x : Token, test x → x.Inner)
    (htrue : test s.peek → Carries e stack before (k true) (k' true) held' stack' s.advance)
    (hfalse : ¬test s.peek → Carries e stack before (k false) (k' false) held' stack' s) :
    Carries e stack before (eat test >>= k) (eat test >>= k') held' stack' s :=
  carries_eatWith hblind (fun h hs => hs.advance (hinner _ h).kind ((hinner _ h).plain stack)) htrue hfalse

lemma carries_eatOpen {k k' : Bool → Parser β} (b : Bracket)
    (htrue : Carries e (b :: stack) before (k true) (k' true) held' stack' s.advance)
    (hfalse : Carries e stack before (k false) (k' false) held' stack' s) :
    Carries e stack before (eatPunct b.opening >>= k) (eatPunct b.opening >>= k') held' stack' s :=
  carries_eatWith (fun _ _ => rfl)
    (fun h hs => hs.advance (kind_ne_eof_of_isPunct _ h) (Bracket.step_of_opening b stack h)) (fun _ => htrue)
    fun _ => hfalse

lemma carries_eatPunct {text : String} (h : text ∉ Token.Inner.brackets) :
    Carries e stack True (eatPunct text) (eatPunct text) holdsNone stack s := by
  rw [← bind_pure (eatPunct text)]
  exact carries_eat (fun _ _ => rfl) (inner_isPunct h) (fun _ => carries_pure rfl fun _ => trivial)
    fun _ => carries_pure rfl fun _ => trivial

lemma carries_eatName (text : String) :
    Carries e stack True (eatName text) (eatName text) holdsNone stack s := by
  rw [← bind_pure (eatName text)]
  exact carries_eat (fun _ _ => rfl) inner_isName (fun _ => carries_pure rfl fun _ => trivial)
    fun _ => carries_pure rfl fun _ => trivial

/-- What is expected is taken: nothing has to carry over where it is not there. -/
lemma carries_expect {test : Token → Bool} {text : String} {k k' : Bool → Parser β} (hblind : Blind test)
    (hstep : test s.peek → Reached e.tokens e.budget stack s → Reached e.tokens e.budget stack' s.advance)
    (htrue : ∀ t, Carries e stack' before (k true) (k' true) held' stack'' t) (hfalse : Sticks (k false)) :
    Carries e stack before (expect test text >>= k) (expect test text >>= k') held' stack'' s := by
  unfold expect
  rw [bind_assoc,bind_assoc]
  refine carries_eatWith hblind hstep (fun _ => htrue _) fun _ => ?_
  exact carries_reportHere (k := fun _ => k false) hfalse

lemma carries_discardExpect {test : Token → Bool} {text : String} (hblind : Blind test)
    (hstep : test s.peek → Reached e.tokens e.budget stack s → Reached e.tokens e.budget stack' s.advance) :
    Carries e stack True (discard (expect test text)) (discard (expect test text)) holdsNone stack' s := by
  refine Carries.discard ?_
  rw [← bind_pure (expect test text)]
  exact carries_expect hblind hstep (fun _ => carries_pure rfl fun _ => trivial) (sticks_pure false)

lemma carries_punct {text : String} (h : text ∉ Token.Inner.brackets) :
    Carries e stack True (discard (expectPunct text)) (discard (expectPunct text)) holdsNone stack s :=
  carries_discardExpect (fun _ _ => rfl) fun ht hs =>
    hs.advance (inner_isPunct h _ ht).kind ((inner_isPunct h _ ht).plain stack)

lemma carries_word (text : String) :
    Carries e stack True (discard (expectName text)) (discard (expectName text)) holdsNone stack s :=
  carries_discardExpect (fun _ _ => rfl) fun ht hs =>
    hs.advance (inner_isName _ ht).kind ((inner_isName _ ht).plain stack)

lemma carries_opening (b : Bracket) : Carries e stack True (discard (expectPunct b.opening))
    (discard (expectPunct b.opening)) holdsNone (b :: stack) s :=
  carries_discardExpect (fun _ _ => rfl) fun ht hs =>
    hs.advance (kind_ne_eof_of_isPunct _ ht) (Bracket.step_of_opening b stack ht)

lemma carries_closing (b : Bracket) : Carries e (b :: stack) True (discard (expectPunct b.closing))
    (discard (expectPunct b.closing)) holdsNone stack s :=
  carries_discardExpect (fun _ _ => rfl) fun ht hs =>
    hs.advance (kind_ne_eof_of_isPunct _ ht) (Bracket.step_of_closing b stack ht)

/-- Up to the bracket that closes the one opened last, and on. -/
lemma carries_upTo {k k' : α → Parser β} (b : Bracket) (h : Carries e (b :: stack) True p p' held (b :: stack) s)
    (hk : ∀ (c : Copy α) t, Carries e stack (before ∧ held c.left) (k c.left) (k' c.right) held' stack' t) :
    Carries e (b :: stack) before (do
      let a ← p
      discard (expectPunct b.closing)
      k a) (do
      let a ← p'
      discard (expectPunct b.closing)
      k' a) held' stack' s :=
  h.bind fun c _ => (carries_closing b).next fun _ t => hk c t

/-- A part in brackets, and on. -/
lemma carries_between {k k' : α → Parser β} (b : Bracket)
    (h : ∀ t, Carries e (b :: stack) True p p' held (b :: stack) t)
    (hk : ∀ (c : Copy α) t, Carries e stack (before ∧ held c.left) (k c.left) (k' c.right) held' stack' t) :
    Carries e stack before (do
      discard (expectPunct b.opening)
      let a ← p
      discard (expectPunct b.closing)
      k a) (do
      discard (expectPunct b.opening)
      let a ← p'
      discard (expectPunct b.closing)
      k' a) held' stack' s :=
  (carries_opening b).next fun _ t => carries_upTo b (h t) hk

/-! Nodes. -/

lemma carries_make {span span' : Span} {kind kind' : Kind Node}
    (hkind : kind'.over Node.shape = kind.over Node.shape)
    (hb : e.Fits around kind.children → e.Fits (around + 1) kind.deeper → before) :
    Carries e stack before (make span kind) (make span' kind') (e.Holds around) stack s := by
  rintro n t ⟨⟩ hblank
  refine ⟨hblank,fun hs => ⟨⟨⟨hs.eof,hs.ordered,hs.texts⟩,hs.budget⟩,hs.blank,hs.past⟩,fun _ hf => ?_,?_⟩
  · have hadmits := hf _ List.mem_cons_self
    exact hb hadmits.children hadmits.deeper
  · intro _ _ s' hs'
    refine ⟨_,_,rfl,Node.shape_congr hkind,?_⟩
    exact ⟨⟨hs'.rest,hs'.eof,hs'.allowIn,hs'.inAsync,hs'.inGenerator⟩,hs'.taken,hs'.blank,hs'.depth⟩

lemma carries_finish {o o' : Nat} {kind kind' : Kind Node}
    (hkind : kind'.over Node.shape = kind.over Node.shape)
    (hb : e.Fits around kind.children → e.Fits (around + 1) kind.deeper → before) :
    Carries e stack before (finish kind o) (finish kind' o') (e.Holds around) stack s :=
  carries_look (finish kind o) (fun s' => make (s'.spanFrom o') kind') fun _ _ =>
    carries_make hkind hb

lemma carries_leaf {kind : Kind Node} (hpeek : s.peek.Inner) :
    Carries e stack True (leaf kind) (leaf kind) (e.Holds around) stack s :=
  carries_start fun _ _ => carries_skip hpeek (carries_finish rfl fun _ _ => trivial)

lemma carries_endStatement : Carries e stack True endStatement endStatement holdsNone stack s :=
  (carries_eatPunct (by decide)).next fun _ _ => carries_ite (fun _ => carries_pure rfl fun _ => trivial) fun _ =>
    carries_peek fun _ => carries_ite (fun _ => carries_pure rfl fun _ => trivial) fun _ =>
      carries_reportHere (k := fun _ => pure ()) (sticks_pure ())

lemma carries_finishStatement {o o' : Nat} {kind kind' : Kind Node}
    (hkind : kind'.over Node.shape = kind.over Node.shape)
    (hb : e.Fits around kind.children → e.Fits (around + 1) kind.deeper → before) :
    Carries e stack before (finishStatement kind o) (finishStatement kind' o') (e.Holds around) stack s :=
  carries_get fun _ _ => carries_endStatement.next fun _ _ => carries_make hkind hb

/-! Names and surroundings. -/

lemma carries_identifier : Carries e stack True identifier identifier holdsNone stack s := by
  refine carries_peek fun _ => carries_ite (fun h => ?_) fun _ => carries_reportHere (sticks_pure none)
  exact carries_bump (.of_name (beq_iff_eq.mp h)) fun _ => carries_pure rfl fun _ => trivial

lemma carries_bindingIdentifier : Carries e stack True bindingIdentifier bindingIdentifier holdsNone stack s :=
  carries_peek fun _ => carries_ite (fun _ => carries_identifier) fun _ => carries_reportHere (sticks_pure none)

lemma Reached.inContext {tokens : List Token} {budget : Nat} (h : Reached tokens budget stack s)
    (allowIn async generator : Bool) : Reached tokens budget stack (s.inContext allowIn async generator) :=
  ⟨⟨⟨h.eof,h.ordered,h.texts⟩,h.budget⟩,h.blank,h.past⟩

omit [Strips α] [Strips β] in
lemma State.Mirrors.inContext {lead depth : Nat} {s s' : State} (h : s.Mirrors lead depth s')
    (allowIn async generator : Bool) :
    (s.inContext allowIn async generator).Mirrors lead depth (s'.inContext allowIn async generator) :=
  ⟨⟨h.rest,h.eof,rfl,rfl,rfl⟩,h.taken,h.blank,h.depth⟩

/-- Changes to the surroundings that are the same in both readings. -/
def Surrounds (f : State → State → State) : Prop :=
  ∀ saved s, ∃ allowIn async generator, f saved s = s.inContext allowIn async generator ∧
    ∀ saved' s', saved.Faces saved' → s.Faces s' → f saved' s' = s'.inContext allowIn async generator

/-- A part between two changes to the surroundings. -/
lemma Carries.inside (enter leave : State → State → State) (henter : Surrounds enter) (hleave : Surrounds leave)
    (h : Carries e stack before p p' held stack' (enter s s)) :
    Carries e stack before (do
      let saved ← get
      modify (enter saved)
      let result ← p
      modify (leave saved)
      pure result) (do
      let saved ← get
      modify (enter saved)
      let result ← p'
      modify (leave saved)
      pure result) held stack' s := by
  intro a t ht hblank
  obtain ⟨_,_,⟨⟩,ht⟩ := bind_eq_ok ht
  obtain ⟨_,_,⟨⟩,ht⟩ := bind_eq_ok ht
  obtain ⟨a,u,hu,⟨⟩⟩ := bind_eq_ok ht
  obtain ⟨allowIn,async,generator,hentered,henter⟩ := henter s s
  obtain ⟨allowIn',async',generator',hleft,hleave⟩ := hleave s u
  rw [hleft] at hblank ⊢
  rw [hentered] at h hu
  have h := h a u hu hblank
  refine ⟨h.blank,fun hs => (h.reached (hs.inContext _ _ _)).inContext _ _ _,
    fun hs => h.before (hs.inContext _ _ _),fun hs hf s' hs' => ?_⟩
  obtain ⟨a',u',ha',hsame,hu'⟩ := h.again (hs.inContext _ _ _) hf _ (hs'.inContext allowIn async generator)
  refine ⟨a',u'.inContext allowIn' async' generator',?_,hsame,hu'.inContext _ _ _⟩
  rw [← hleave s' u' hs'.toFaces hu'.toFaces]
  change (p' (enter s' s') >>= fun r => Except.ok (r.1, leave s' r.2)) = _
  rw [henter s' s' hs'.toFaces hs'.toFaces,ha']
  rfl

lemma Carries.withIn (allowed : Bool)
    (h : Carries e stack before p p' held stack' { s with allowIn := allowed }) :
    Carries e stack before (withIn allowed p) (withIn allowed p') held stack' s := by
  refine Carries.inside (fun _ s => { s with allowIn := allowed })
    (fun saved s => { s with allowIn := saved.allowIn }) (fun _ s => ?_) (fun saved s => ?_) h
  · refine ⟨allowed,s.inAsync,s.inGenerator,rfl,fun _ s' _ hs => ?_⟩
    rw [← hs.inAsync,← hs.inGenerator]
    rfl
  · refine ⟨saved.allowIn,s.inAsync,s.inGenerator,rfl,fun saved' s' hsaved hs => ?_⟩
    rw [← hsaved.allowIn,← hs.inAsync,← hs.inGenerator]
    rfl

lemma Carries.inFunction (async generator : Bool)
    (h : Carries e stack before p p' held stack' { s with inAsync := async, inGenerator := generator }) :
    Carries e stack before (inFunction async generator p) (inFunction async generator p') held stack' s := by
  refine Carries.inside (fun _ s => { s with inAsync := async, inGenerator := generator })
    (fun saved s => { s with inAsync := saved.inAsync, inGenerator := saved.inGenerator })
    (fun _ s => ?_) (fun saved s => ?_) h
  · refine ⟨s.allowIn,async,generator,rfl,fun _ s' _ hs => ?_⟩
    rw [← hs.allowIn]
    rfl
  · refine ⟨s.allowIn,saved.inAsync,saved.inGenerator,rfl,fun saved' s' hsaved hs => ?_⟩
    rw [← hsaved.inAsync,← hsaved.inGenerator,← hs.allowIn]
    rfl

lemma carries_optionally [Bears α] {present : Parser Bool}
    (hpresent : Carries e stack True present present holdsNone stack s)
    (h : ∀ t, Carries e stack True p p' (e.Holds around) stack t) :
    Carries e stack True (optionally present p) (optionally present p') (e.Holds around) stack s := by
  refine hpresent.next fun _ t => carries_ite (fun _ => ?_) fun _ => carries_pure rfl fun _ => trivial
  refine Carries.map (f := some) ?_ fun c => congrArg some c.same
  simpa using h t

end

/-! Goals. -/

/-- How many levels can be taken, beyond those for brackets and for what is around, before a goal is read. -/
def Goal.entry : Goal → Nat
  | .statement | .initializer => 0
  | .assignment | .unary | .binary _ => 1
  | .primary | .newExpression => 2

/-- Where the goals of scripts are read: what starts with `new` is no primary expression. -/
def Goal.StartsAt (t : Token) : Goal → Prop
  | .initializer => False
  | .newExpression => t.kind = .name
  | .primary => ¬t.isName "new"
  | _ => True

/-- Two ways to read goals of which the first carries over to the second. -/
structure Carrying (m : Nat) (go go' : Reader) : Prop extends Obeys m go, Faithful false go where
  carries (goal : Goal) (e : Embedding) (hbudget : e.budget ≤ m - 1) (around : Nat) (stack : List Bracket)
    (hd : e.Allows around stack (goal.entry + 1)) (s : State) (hgoal : goal.StartsAt s.peek) :
    Carries e stack True (go goal) (go' goal) (e.Holds around) stack s

section

variable {e : Embedding} {around : Nat} {stack : List Bracket} {before : Prop} {s : State} {go go' : Reader}

/-- A goal that is read one level deeper. If it takes the last level in the source by itself, there are as many
brackets, statements and operators around its node. -/
lemma Carrying.nested (hgo : Carrying e.budget go go') (goal : Goal)
    (hd : e.Allows around stack goal.entry) (hgoal : goal.StartsAt s.peek) :
    Carries e stack True (nested go goal) (nested go' goal) (e.Holds around) stack s := by
  intro n t ht hblank
  have hrun := ht
  change (if maxNesting ≤ s.depth then _ else _ : Parser Node) s = _ at ht
  split at ht
  · cases ht
    exact absurd hblank (Since.report_ne_empty _ _ _)
  rename_i hroom
  obtain ⟨_,_,⟨⟩,ht⟩ := bind_eq_ok ht
  obtain ⟨n,u,hu,⟨⟩⟩ := bind_eq_ok ht
  let deep : Embedding := { e with depth := e.depth + 1, budget := e.budget - 1 }
  have hdeep : deep.Allows around stack (goal.entry + 1) := Nat.succ_le_succ hd
  have h := hgo.carries goal deep (Nat.le_refl _) around stack hdeep { s with depth := s.depth + 1 } hgoal n u hu
    hblank
  have hin (hs : Reached e.tokens e.budget stack s) :
      Reached e.tokens (e.budget - 1) stack { s with depth := s.depth + 1 } := by
    have hbudget := State.budget_deeper hs.toWithin hroom
    exact ⟨⟨⟨hs.eof,hs.ordered,hs.texts⟩,Nat.le_sub_one_of_lt hbudget⟩,hs.blank,hs.past⟩
  have hread (hs : Reached e.tokens e.budget stack s) : Reads s [n] { u with depth := u.depth - 1 } :=
    (reading_nested hgo.toObeys goal s hs.toWithin).of_ok hrun
  refine ⟨h.blank,fun hs => ?_,fun _ _ => trivial,fun hs hf s' hs' => ?_⟩
  · have hlater := h.reached (hin hs)
    exact ⟨(hread hs).follows.within hs.toWithin,hlater.blank,hlater.past⟩
  have hleft : ¬maxNesting ≤ e.depth := by
    have hrow := (hread hs).row hs.ordered
    have hbalanced : ∃ ts, Took s {} { u with depth := u.depth - 1 } ts := by
      have hfaithful : Leads false {} (Grammar.nested go goal) (Stretch.take {}) s := by
        refine Leads.nested ?_
        cases goal
        case initializer => exact hgoal.elim
        case newExpression => exact hgo.newExpression _ _ hgoal
        all_goals apply hgo.scripts <;> nofun
      obtain ⟨ts,hts⟩ := (hfaithful s (.refl hs.eof) _ _ hrun).took hblank
      exact ⟨ts,hts.blank,hts.rest,hts.count,hts.nested,fun h => absurd h Bool.false_ne_true⟩
    obtain ⟨ts,hts⟩ := hbalanced
    have hspan := (hrow.sound n List.mem_cons_self).span_le
    have hstop := (hrow.below n List.mem_cons_self).stop_le
    have hopen := hs.le_openedAt hts.rest hts.nested (hrow.start n List.mem_cons_self) (by omega)
    have hlevels : 2 * Bracket.openedAt e.tokens n.span.start ≤ n.levels e.brackets := n.opened_le_levels e.brackets
    have hfits := hf n List.mem_cons_self
    have hentry : goal.entry ≤ 2 := by cases goal <;> simp [Goal.entry]
    unfold Embedding.Allows at hd
    unfold Embedding.Admits at hfits
    omega
  have hmirrors : ({ s with depth := s.depth + 1 } : State).Mirrors e.lead (e.depth + 1)
      { s' with depth := s'.depth + 1 } :=
    ⟨⟨hs'.rest,hs'.eof,hs'.allowIn,hs'.inAsync,hs'.inGenerator⟩,hs'.taken,hs'.blank,congrArg (· + 1) hs'.depth⟩
  obtain ⟨n',u',hn',hsame,hu'⟩ := h.again (hin hs) hf _ hmirrors
  refine ⟨n',{ u' with depth := u'.depth - 1 },?_,hsame,?_⟩
  · change (if maxNesting ≤ s'.depth then _ else _ : Parser Node) s' = _
    rw [hs'.depth,if_neg hleft]
    change (go' goal { s' with depth := s'.depth + 1 } >>= fun r =>
      Except.ok (r.1, { r.2 with depth := r.2.depth - 1 })) = _
    rw [hn']
    rfl
  · refine ⟨⟨hu'.rest,hu'.eof,hu'.allowIn,hu'.inAsync,hu'.inGenerator⟩,hu'.taken,hu'.blank,?_⟩
    change u'.depth - 1 = e.depth
    rw [hu'.depth]
    rfl

lemma Carrying.statement (hgo : Carrying e.budget go go') (hd : e.Allows around stack 0) :
    Carries e stack True (statement go) (statement go') (e.Holds around) stack s :=
  hgo.nested .statement hd trivial

lemma Carrying.assignment (hgo : Carrying e.budget go go') (hd : e.Allows around stack 1) :
    Carries e stack True (assignment go) (assignment go') (e.Holds around) stack s :=
  hgo.nested .assignment hd trivial

lemma Carrying.primary (hgo : Carrying e.budget go go') (hd : e.Allows around stack 2)
    (h : ¬s.peek.isName "new") :
    Carries e stack True (primary go) (primary go') (e.Holds around) stack s :=
  hgo.nested .primary hd h

end

/-! Loops. -/

section

variable {α : Type} [Strips α] [Bears α] {e : Embedding} {around : Nat} {stack : List Bracket} {before : Prop}
  {p p' : Parser α} {round round' : Parser (Round α)} {part part' : Parser (List α)} {s : State}

lemma Carries.collectWithin (h : ∀ t, Carries e stack True round round' (e.Holds around) stack t) (rounds : Nat) :
    Carries e stack True (collectWithin round rounds) (collectWithin round' rounds) (e.Holds around) stack s := by
  induction rounds generalizing s with
  | zero =>
    intro _ _ ht
    cases ht
  | succ rounds ih =>
    refine (h s).bind fun ⟨⟨items,more⟩,⟨items',more'⟩,hsame⟩ t => ?_
    obtain ⟨hitems,hmore⟩ := Prod.mk.inj hsame
    obtain rfl : more' = more := hmore
    refine carries_ite (fun _ => ?_) fun _ => carries_pure hitems fun hf => ⟨trivial,hf⟩
    refine ih.bind fun later _ => carries_pure ?_ fun hf => ?_
    · change (items' ++ later.right).map strip = (items ++ later.left).map strip
      rw [List.map_append,List.map_append]
      exact congrArg₂ (· ++ ·) hitems later.same
    · rw [Embedding.Holds,nodes_append,Embedding.fits_append_iff] at hf
      exact ⟨⟨trivial,hf.1⟩,hf.2⟩

lemma Carries.collect (h : ∀ t, Carries e stack True round round' (e.Holds around) stack t) :
    Carries e stack True (collect round) (collect round') (e.Holds around) stack s :=
  carries_upcoming (fun n => Grammar.collectWithin round (n + 1)) (fun n => Grammar.collectWithin round' (n + 1))
    fun _ => Carries.collectWithin h _

lemma Carries.collectUntil {stops : Token → Bool} (hstops : Blind stops)
    (h : ∀ t, Carries e stack True round round' (e.Holds around) stack t) :
    Carries e stack True (collectUntil stops round) (collectUntil stops round') (e.Holds around) stack s := by
  refine Carries.collect fun t => carries_peek fun span => ?_
  rw [hstops t.peek span]
  exact carries_ite (fun _ => carries_pure rfl fun _ => trivial) fun _ => h t

omit [Strips α] [Bears α] in
lemma taken_lt_of_consumes {a : α} {t : State} (hconsumes : Consumes false p) (heof : s.eof.kind = .eof)
    (ht : p s = .ok (a, t)) (hblank : t.diagnostics = #[]) : s.taken < t.taken := by
  obtain ⟨ts,hts⟩ := (hconsumes {} s s (.refl heof) a t ht).took hblank
  have hpos := List.length_pos_iff.mpr (hts.some rfl)
  have hcount := hts.count
  omega

/-- A part that takes a token needs none to be skipped for it, in both readings. -/
lemma Carries.progressing (hconsumes : Consumes false p)
    (h : ∀ t, Carries e stack True p p' (e.Holds around) stack t) :
    Carries e stack True (progressing p) (progressing p') (e.Holds around) stack s := by
  intro b v hv hblank
  change (p >>= fun a => taken >>= fun after => skipIf (after == s.taken) >>= fun _ => pure a) s = _ at hv
  obtain ⟨a,u,hu,hv⟩ := bind_eq_ok hv
  replace hv : (skipIf (u.taken == s.taken) >>= fun _ => pure a) u = .ok (b, v) := hv
  have hdiagnostics : v.diagnostics = u.diagnostics := by
    cases hskip : u.taken == s.taken with
    | true =>
      rw [hskip] at hv
      cases hv
      unfold State.advance
      split <;> rfl
    | false =>
      rw [hskip] at hv
      cases hv
      rfl
  have hp := h s a u hu (hdiagnostics ▸ hblank)
  have hkeeps (hs : Reached e.tokens e.budget stack s) : (u.taken == s.taken) = false := by
    have hlt := taken_lt_of_consumes hconsumes hs.eof hu (hdiagnostics ▸ hblank)
    exact beq_eq_false_iff_ne.mpr (Nat.ne_of_gt hlt)
  have hsame (hs : Reached e.tokens e.budget stack s) : b = a ∧ v = u := by
    rw [hkeeps hs] at hv
    cases hv
    exact ⟨rfl,rfl⟩
  refine ⟨hp.blank,fun hs => (hsame hs).2 ▸ hp.reached hs,fun _ _ => trivial,fun hs hf s' hs' => ?_⟩
  obtain ⟨rfl,rfl⟩ := hsame hs
  obtain ⟨a',u',ha',hsame,hu'⟩ := hp.again hs hf s' hs'
  refine ⟨a',u',?_,hsame,hu'⟩
  change (p' s' >>= fun r => (skipIf (r.2.taken == s'.taken) >>= fun _ => pure r.1) r.2) = _
  have hkeeps' : (u'.taken == s'.taken) = false := by
    have hkeeps := hkeeps hs
    rw [beq_eq_false_iff_ne] at hkeeps ⊢
    rw [hu'.taken,hs'.taken]
    omega
  rw [ha']
  change (skipIf (u'.taken == s'.taken) >>= fun _ => pure a') u' = _
  rw [hkeeps']
  rfl

lemma Carries.one (h : Carries e stack True p p' (e.Holds around) stack s) :
    Carries e stack True (one p) (one p') (e.Holds around) stack s :=
  h.bind fun c _ => carries_pure (congrArg (fun x => [x]) c.same) fun hf =>
    ⟨trivial,by simpa [Embedding.Holds] using hf⟩

lemma Carries.everyRound (hconsumes : Consumes false part)
    (h : ∀ t, Carries e stack True part part' (e.Holds around) stack t) :
    Carries e stack True (everyRound part) (everyRound part') (e.Holds around) stack s :=
  (Carries.progressing hconsumes h).bind fun c _ =>
    carries_pure (congrArg (fun x => (x, true)) c.same) fun hf => ⟨trivial,hf⟩

lemma Carries.commaRound (hconsumes : Consumes false part)
    (h : ∀ t, Carries e stack True part part' (e.Holds around) stack t) :
    Carries e stack True (commaRound part) (commaRound part') (e.Holds around) stack s :=
  (Carries.progressing hconsumes h).bind fun c _ => (carries_eatPunct (by decide)).next fun more _ =>
    carries_pure (congrArg (fun x => (x, more)) c.same) fun hf => ⟨trivial,hf⟩

lemma Carries.commaSeparated (close : String) (hconsumes : Consumes false part)
    (h : ∀ t, Carries e stack True part part' (e.Holds around) stack t) :
    Carries e stack True (commaSeparated close part) (commaSeparated close part') (e.Holds around) stack s :=
  Carries.collectUntil (fun _ _ => rfl) fun _ => Carries.commaRound hconsumes h

/-- A loop that puts layers around an operand. The last round leaves the operand as it is. -/
lemma Carries.iterate {step step' : Node → Parser (Option Node)}
    (h : ∀ (c : Copy Node) t, Carries e stack (e.Holds around c.left) (step c.left) (step' c.right)
      (fun next => e.Holds around (next.getD c.left)) stack t) (c : Copy Node) :
    Carries e stack (e.Holds around c.left) (iterate step c.left) (iterate step' c.right) (e.Holds around) stack
      s := by
  refine carries_upcoming (fun n => iterateWithin step (n + 1) c.left)
    (fun n => iterateWithin step' (n + 1) c.right) fun n => ?_
  generalize n + 1 = rounds
  induction rounds generalizing c s with
  | zero =>
    intro _ _ ht
    cases ht
  | succ rounds ih =>
    refine (h c s).goOn fun ⟨next,next',hsame⟩ t => ?_
    replace hsame : next'.map Node.shape = next.map Node.shape := hsame
    cases next with
    | none =>
      obtain rfl := Option.map_eq_none_iff.mp hsame
      exact carries_pure c.same id
    | some n =>
      obtain ⟨n',rfl,hn⟩ := Option.map_eq_some_iff.mp hsame
      exact ih ⟨n,n',hn⟩

end

end QmlCodeModel.Grammar
