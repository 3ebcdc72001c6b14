import Mathlib.Data.List.Forall2
import Mathlib.Data.Option.Basic
import QmlCodeModel.Grammar.Source
import QmlCodeModel.Proofs.Tree.Bare

/-! Two readings of the same tokens that stand at different places. Places reach the tree and the messages,
but no decision of the grammar depends on more of them than their order. So the readings go side by side:
their answers are alike, and so are the states that they come to. -/
namespace QmlCodeModel.Grammar

/-- Offsets of one text with offsets of another, in pairs that are in the same order. -/
structure Relocation where
  pairs : Nat → Nat → Prop
  le_iff {a a' b b' : Nat} (h : pairs a a') (h' : pairs b b') : a ≤ b ↔ a' ≤ b'

lemma Relocation.eq_iff {r : Relocation} {a a' b b' : Nat} (h : r.pairs a a') (h' : r.pairs b b') :
    a = b ↔ a' = b' := by
  rw [Nat.le_antisymm_iff,Nat.le_antisymm_iff,r.le_iff h h',r.le_iff h' h]

/-! Answers that are alike. -/

/-- When answers of two readings are the same but for the places in them. -/
class Alike (α : Type) where
  alike : Relocation → α → α → Prop

export Alike (alike)

/-- Answers without places. -/
class Placeless (α : Type)

section

variable {α β : Type}

instance [Placeless α] : Alike α := ⟨fun _ => Eq⟩
instance : Alike Nat := ⟨Relocation.pairs⟩
instance : Alike Span := ⟨fun r s s' => r.pairs s.start s'.start⟩
instance : Alike LineColumn := ⟨fun _ _ _ => True⟩
instance : Alike Token := ⟨fun r t t' => t.bare = t'.bare ∧ r.pairs t.span.start t'.span.start⟩
instance : Alike Node := ⟨fun r n n' => n.bare = n'.bare ∧ r.pairs n.span.start n'.span.start⟩
instance : Alike Diagnostic := ⟨fun r d d' =>
  d.severity = d'.severity ∧ d.message = d'.message ∧ r.pairs d.offset d'.offset⟩
instance : Alike Directive := ⟨fun _ d d' => d.bare = d'.bare⟩
instance : Alike Ident := ⟨fun _ i i' => i.bare = i'.bare⟩
instance : Alike QualifiedName := ⟨fun _ q q' => q.bare = q'.bare⟩
instance : Alike ImportTarget := ⟨fun _ i i' => i.bare = i'.bare⟩
instance : Alike SignalParameter := ⟨fun _ p p' => p.bare = p'.bare⟩
instance : Alike EnumMember := ⟨fun _ m m' => m.bare = m'.bare⟩
instance : Alike (BindingTarget Node) := ⟨fun _ b b' => b.bare = b'.bare⟩
instance : Alike (FormalParameter Node) := ⟨fun _ p p' => p.bare = p'.bare⟩
instance : Alike (FunctionParts Node) := ⟨fun _ f f' => f.bare = f'.bare⟩
instance : Alike (ClassParts Node) := ⟨fun _ c c' => c.bare = c'.bare⟩
instance : Alike (PropertyKey Node) := ⟨fun _ k k' => k.bare = k'.bare⟩
instance [Alike α] : Alike (Option α) := ⟨fun r => Option.Rel (alike r)⟩
instance [Alike α] : Alike (List α) := ⟨fun r => List.Forall₂ (alike r)⟩
instance [Alike α] [Alike β] : Alike (α × β) := ⟨fun r p p' => alike r p.1 p'.1 ∧ alike r p.2 p'.2⟩
instance [Alike α] : Alike (Round α) := ⟨fun r s s' => alike r s.items s'.items ∧ s.more = s'.more⟩
instance : Alike FirstValue := ⟨fun r v v' => alike r v.statement v'.statement ∧ alike r v.binding v'.binding⟩

instance : Placeless Unit where
instance : Placeless Bool where
instance : Placeless String where
instance : Placeless Double where
instance : Placeless VariableKind where
instance : Placeless ForEachKind where
instance : Placeless MemberModifiers where
instance : Placeless PropertyModifiers where
instance : Placeless (Nat × Kind Nat) where

end

/-- Two answers that are alike. -/
structure Twin (r : Relocation) (α : Type) [Alike α] where
  left : α
  right : α
  alike : alike r left right

namespace Twin

variable {r : Relocation} {α β : Type}

lemma map_eq [Alike α] {f : α → β} (hf : ∀ a b, Alike.alike r a b → f a = f b) {l l' : List α}
    (h : Alike.alike r l l') : l'.map f = l.map f := by
  induction h with
  | nil => rfl
  | cons h _ ih => rw [List.map_cons,List.map_cons,ih,hf _ _ h]

lemma option_eq [Alike α] {f : α → β} (hf : ∀ a b, Alike.alike r a b → f a = f b) {o o' : Option α}
    (h : Alike.alike r o o') : o'.map f = o.map f := by
  cases h with
  | none => rfl
  | some h => rw [Option.map_some,Option.map_some,hf _ _ h]

lemma id_eq {n n' : Node} (h : Alike.alike r n n') : n.id = n'.id := congrArg Prod.fst h.1

@[simp] lemma placeless [Placeless α] (t : Twin r α) : t.right = t.left := t.alike.symm
@[simp] lemma placeless_option [Placeless α] (t : Twin r (Option α)) : t.right = t.left := by
  simpa using option_eq (f := id) (fun _ _ h => h) t.alike

@[simp] lemma isNone_option [Alike α] (t : Twin r (Option α)) : t.right.isNone = t.left.isNone := by
  obtain ⟨o,o',h⟩ := t
  cases h <;> rfl

@[simp] lemma id_node (t : Twin r Node) : t.right.id = t.left.id := (id_eq t.alike).symm
@[simp] lemma id_option (t : Twin r (Option Node)) : t.right.map Node.id = t.left.map Node.id :=
  option_eq (fun _ _ => id_eq) t.alike
@[simp] lemma id_list (t : Twin r (List Node)) : t.right.map Node.id = t.left.map Node.id :=
  map_eq (fun _ _ => id_eq) t.alike
@[simp] lemma id_statement (t : Twin r FirstValue) :
    t.right.statement.map Node.id = t.left.statement.map Node.id := option_eq (fun _ _ => id_eq) t.alike.1
@[simp] lemma id_binding (t : Twin r FirstValue) :
    t.right.binding.map Node.id = t.left.binding.map Node.id := option_eq (fun _ _ => id_eq) t.alike.2
@[simp] lemma id_holes (t : Twin r (List (Option Node))) :
    t.right.map (Option.map Node.id) = t.left.map (Option.map Node.id) :=
  map_eq (fun _ _ h => (option_eq (fun _ _ => id_eq) h).symm) t.alike

@[simp] lemma bare_ident (t : Twin r Ident) : t.right.bare = t.left.bare := t.alike.symm
@[simp] lemma bare_label (t : Twin r (Option Ident)) : t.right.map Ident.bare = t.left.map Ident.bare :=
  option_eq (fun _ _ h => h) t.alike
@[simp] lemma bare_parts (t : Twin r (List Ident)) : t.right.map Ident.bare = t.left.map Ident.bare :=
  map_eq (fun _ _ h => h) t.alike
@[simp] lemma bare_name (t : Twin r QualifiedName) : t.right.bare = t.left.bare := t.alike.symm
@[simp] lemma joined_name (t : Twin r QualifiedName) : t.right.joined = t.left.joined := by
  rw [← t.left.joined_bare,← t.right.joined_bare,bare_name]
@[simp] lemma name_label (t : Twin r (Option Ident)) : t.right.map Ident.name = t.left.map Ident.name := by
  have hname (i i' : Ident) (h : i.bare = i'.bare) : i.name = i'.name := by
    simpa [Ident.bare] using h
  exact option_eq hname t.alike
@[simp] lemma bare_target (t : Twin r ImportTarget) : t.right.bare = t.left.bare := t.alike.symm
@[simp] lemma bare_binding (t : Twin r (BindingTarget Node)) : t.right.bare = t.left.bare := t.alike.symm
@[simp] lemma bare_parameter (t : Twin r (Option (BindingTarget Node))) :
    t.right.map BindingTarget.bare = t.left.map BindingTarget.bare := option_eq (fun _ _ h => h) t.alike
@[simp] lemma bare_parameters (t : Twin r (List (FormalParameter Node))) :
    t.right.map FormalParameter.bare = t.left.map FormalParameter.bare := map_eq (fun _ _ h => h) t.alike
@[simp] lemma bare_function (t : Twin r (FunctionParts Node)) : t.right.bare = t.left.bare := t.alike.symm
@[simp] lemma bare_class (t : Twin r (ClassParts Node)) : t.right.bare = t.left.bare := t.alike.symm
@[simp] lemma bare_key (t : Twin r (PropertyKey Node)) : t.right.bare = t.left.bare := t.alike.symm
@[simp] lemma bare_signal (t : Twin r (List SignalParameter)) :
    t.right.map SignalParameter.bare = t.left.map SignalParameter.bare := map_eq (fun _ _ h => h) t.alike
@[simp] lemma bare_members (t : Twin r (List EnumMember)) :
    t.right.map EnumMember.bare = t.left.map EnumMember.bare := map_eq (fun _ _ h => h) t.alike

end Twin

/-- A token that is alike is the same one at another place. -/
lemma eq_of_alike {r : Relocation} {t t' : Token} (h : alike r t t') : t' = { t with span := t'.span } := by
  obtain ⟨h,-⟩ := h
  cases t
  cases t'
  simp only [Token.bare,Token.mk.injEq,true_and] at h ⊢
  exact ⟨h.1.symm,h.2.1.symm,h.2.2.symm⟩

@[simp] lemma bare_identOf (t : Token) (span : Span) : (identOf { t with span }).bare = (identOf t).bare := rfl

lemma alike_headD {α : Type} [Alike α] {r : Relocation} {l l' : List α} {a a' : α} (h : alike r l l')
    (ha : alike r a a') : alike r (l.headD a) (l'.headD a') := by
  cases h with
  | nil => exact ha
  | cons h _ => exact h

lemma alike_getLast? {α : Type} [Alike α] {r : Relocation} {l l' : List α} (h : alike r l l') :
    alike r l.getLast? l'.getLast? := by
  have h : alike r l.reverse l'.reverse := List.rel_reverse h
  rw [← List.head?_reverse,← List.head?_reverse]
  generalize l.reverse = m,l'.reverse = m' at h
  cases h with
  | nil => exact .none
  | cons h _ => exact .some h

/-! States that are alike. -/

/-- The same tokens to come and the same nodes made, at other places. -/
structure State.Alike (r : Relocation) (s s' : State) : Prop where
  rest : alike r s.rest s'.rest
  eof : alike r s.eof s'.eof
  taken : s.taken = s'.taken
  nodes : s.nodes.map Node.bare = s'.nodes.map Node.bare
  diagnostics : alike r s.diagnostics.toList s'.diagnostics.toList
  directives : s.directives.map Directive.bare = s'.directives.map Directive.bare
  allowIn : s.allowIn = s'.allowIn
  inAsync : s.inAsync = s'.inAsync
  inGenerator : s.inGenerator = s'.inGenerator
  depth : s.depth = s'.depth

namespace State.Alike

variable {r : Relocation} {s s' : State}

lemma ahead (h : s.Alike r s') (n : Nat) : alike r (s.ahead n) (s'.ahead n) :=
  alike_headD (List.forall₂_drop n h.rest) h.eof

lemma peek (h : s.Alike r s') : alike r s.peek s'.peek := alike_headD h.rest h.eof

lemma front (h : s.Alike r s') : r.pairs s.front s'.front := h.peek.2

lemma size_nodes (h : s.Alike r s') : s.nodes.size = s'.nodes.size := by
  simpa using congrArg Array.size h.nodes

lemma advance (h : s.Alike r s') : s.advance.Alike r s'.advance := by
  unfold State.advance
  have hrest := h.rest
  generalize s.rest = l,s'.rest = l' at hrest
  cases hrest with
  | nil => exact h
  | cons ht hrest =>
    exact ⟨hrest,h.eof,congrArg (· + 1) h.taken,h.nodes,h.diagnostics,h.directives,h.allowIn,h.inAsync,
      h.inGenerator,h.depth⟩

/-- A message at the place of the last one is dropped in both readings. -/
lemma report (h : s.Alike r s') {offset offset' : Nat} (ho : r.pairs offset offset') (fault : GrammarFault) :
    (s.report offset fault).Alike r (s'.report offset' fault) := by
  have hlast := alike_getLast? h.diagnostics
  have hsame : s.diagnostics.back?.any (fun d => d.offset == offset && d.severity == .error) =
      s'.diagnostics.back?.any (fun d => d.offset == offset' && d.severity == .error) := by
    rw [← Array.getLast?_toList,← Array.getLast?_toList]
    generalize s.diagnostics.toList.getLast? = d,s'.diagnostics.toList.getLast? = d' at hlast
    cases hlast with
    | none => rfl
    | @some d d' hd =>
      obtain ⟨hseverity,-,hoffset⟩ := hd
      simp only [Option.any_some,hseverity,Bool.beq_eq_decide_eq,r.eq_iff hoffset ho]
  unfold State.report
  rw [hsame]
  split
  · exact h
  · refine ⟨h.rest,h.eof,h.taken,h.nodes,?_,h.directives,h.allowIn,h.inAsync,h.inGenerator,h.depth⟩
    rw [Array.toList_push,Array.toList_push]
    exact List.rel_append h.diagnostics (.cons ⟨rfl,rfl,ho⟩ .nil)

/-- A node is made with the same number. -/
lemma make (h : s.Alike r s') (span span' : Span) {kind kind' : Kind Node} (hkind : kind.bare = kind'.bare) :
    (s.make span kind).1.bare = (s'.make span' kind').1.bare ∧
      (s.make span kind).2.Alike r (s'.make span' kind').2 := by
  have hbare : (s.make span kind).1.bare = (s'.make span' kind').1.bare := Prod.ext h.size_nodes hkind
  refine ⟨hbare,h.rest,h.eof,h.taken,?_,h.diagnostics,h.directives,h.allowIn,h.inAsync,h.inGenerator,h.depth⟩
  change (s.nodes.push _).map Node.bare = (s'.nodes.push _).map Node.bare
  rw [Array.map_push,Array.map_push,h.nodes]
  exact congrArg _ hbare

end State.Alike

/-! Readings that agree. -/

/-- Answers that are alike with states that are alike, or none in both readings. -/
def Matches {α : Type} [Alike α] (r : Relocation) : Except State (α × State) → Except State (α × State) → Prop
  | .ok (a, t), .ok (a', t') => alike r a a' ∧ t.Alike r t'
  | .error _, .error _ => True
  | _, _ => False

/-- From states that are alike, two parts of the grammar come to answers that are alike. -/
def Agrees {α : Type} [Alike α] (r : Relocation) (p p' : Parser α) : Prop :=
  ∀ s s', s.Alike r s' → Matches r (p s) (p' s')

section

variable {α β : Type} [Alike α] [Alike β] {r : Relocation} {p p' : Parser α}

lemma agrees_pure {a a' : α} (h : alike r a a') : Agrees r (pure a) (pure a') := fun _ _ hs => ⟨h,hs⟩

lemma Agrees.bind {k k' : α → Parser β} (h : Agrees r p p')
    (hk : ∀ a : Twin r α, Agrees r (k a.left) (k' a.right)) : Agrees r (p >>= k) (p' >>= k') := by
  intro s s' hs
  have hp := h s s' hs
  simp only [Bind.bind,StateT.bind,Except.bind]
  cases ha : p s with
  | error e =>
    cases ha' : p' s' with
    | error e' => trivial
    | ok a' => simp [ha,ha',Matches] at hp
  | ok a =>
    cases ha' : p' s' with
    | error e' => simp [ha,ha',Matches] at hp
    | ok a' =>
      rw [ha,ha'] at hp
      exact hk ⟨a.1,a'.1,hp.1⟩ a.2 a'.2 hp.2

/-- A part whose answer holds no place. -/
lemma Agrees.next {γ : Type} [Placeless γ] {p p' : Parser γ} {k k' : γ → Parser β} (h : Agrees r p p')
    (hk : ∀ a, Agrees r (k a) (k' a)) : Agrees r (p >>= k) (p' >>= k') :=
  h.bind fun a => a.placeless ▸ hk a.left

/-- A part that may give nothing. -/
lemma Agrees.choose {p p' : Parser (Option α)} {k k' : Option α → Parser β} (h : Agrees r p p')
    (hsome : ∀ a : Twin r α, Agrees r (k (some a.left)) (k' (some a.right)))
    (hnone : Agrees r (k none) (k' none)) : Agrees r (p >>= k) (p' >>= k') := by
  refine h.bind fun ⟨a,a',ha⟩ => ?_
  cases ha with
  | none => exact hnone
  | some ha => exact hsome ⟨_,_,ha⟩

/-- A part that gives two answers. -/
lemma Agrees.both {γ : Type} [Alike γ] {p p' : Parser (α × γ)} {k k' : α × γ → Parser β} (h : Agrees r p p')
    (hk : ∀ (a : Twin r α) (c : Twin r γ), Agrees r (k (a.left, c.left)) (k' (a.right, c.right))) :
    Agrees r (p >>= k) (p' >>= k') :=
  h.bind fun ⟨⟨_,_⟩,⟨_,_⟩,ha,hc⟩ => hk ⟨_,_,ha⟩ ⟨_,_,hc⟩

lemma Agrees.map {f f' : α → β} (h : Agrees r p p') (hf : ∀ a : Twin r α, alike r (f a.left) (f' a.right)) :
    Agrees r (f <$> p) (f' <$> p') := by
  rw [← bind_pure_comp,← bind_pure_comp]
  exact h.bind fun a => agrees_pure (hf a)

lemma Agrees.discard (h : Agrees r p p') : Agrees r (discard p) (discard p') := h.map fun _ => rfl

lemma agrees_ite {c : Prop} [Decidable c] {q q' : Parser α} (hp : Agrees r p p') (hq : Agrees r q q') :
    Agrees r (if c then p else q) (if c then p' else q') := by
  split
  · exact hp
  · exact hq

/-! Looks at the state. -/

/-- A look at the state that finds answers alike. -/
lemma agrees_look {f : State → α} (h : ∀ s s', s.Alike r s' → alike r (f s) (f s')) :
    Agrees r (fun s => .ok (f s, s)) (fun s => .ok (f s, s)) := fun s s' hs => ⟨h s s' hs,hs⟩

lemma agrees_get {k k' : State → Parser α} (h : ∀ s s', s.Alike r s' → Agrees r (k s) (k' s')) :
    Agrees r (get >>= k) (get >>= k') := fun s s' hs => h s s' hs s s' hs

/-- The next token is the same one at another place. -/
lemma agrees_peek {k k' : Token → Parser α} (h : ∀ t span, Agrees r (k t) (k' { t with span })) :
    Agrees r (peek >>= k) (peek >>= k') := by
  intro s s' hs
  have hk := h s.peek s'.peek.span s s' hs
  rw [← eq_of_alike hs.peek] at hk
  exact hk

lemma agrees_ahead {n : Nat} {k k' : Token → Parser α} (h : ∀ t span, Agrees r (k t) (k' { t with span })) :
    Agrees r (ahead n >>= k) (ahead n >>= k') := by
  intro s s' hs
  have hk := h (s.ahead n) (s'.ahead n).span s s' hs
  rw [← eq_of_alike (hs.ahead n)] at hk
  exact hk

lemma agrees_bump {k k' : Token → Parser α} (h : ∀ t span, Agrees r (k t) (k' { t with span })) :
    Agrees r (bump >>= k) (bump >>= k') := by
  intro s s' hs
  have hk := h s.peek s'.peek.span s.advance s'.advance hs.advance
  rw [← eq_of_alike hs.peek] at hk
  exact hk

lemma agrees_taken {k k' : Nat → Parser α} (h : ∀ n, Agrees r (k n) (k' n)) :
    Agrees r (taken >>= k) (taken >>= k') := by
  intro s s' hs
  change Matches r (k s.taken s) (k' s'.taken s')
  rw [← hs.taken]
  exact h s.taken s s' hs

lemma agrees_upcoming {k k' : List Token → Parser α}
    (h : ∀ l l', alike r l l' → Agrees r (k l) (k' l')) : Agrees r (upcoming >>= k) (upcoming >>= k') :=
  fun s s' hs => h s.rest s'.rest hs.rest s s' hs

lemma agrees_skip : Agrees r (discard bump) (discard bump) := fun _ _ hs => ⟨rfl,hs.advance⟩

lemma agrees_start : Agrees r start start := agrees_look fun _ _ hs => hs.front

lemma agrees_place {offset offset' : Nat} : Agrees r (place offset) (place offset') :=
  fun _ _ hs => ⟨trivial,hs⟩

lemma agrees_atPunct (text : String) : Agrees r (atPunct text) (atPunct text) :=
  agrees_look fun s s' hs => by rw [eq_of_alike hs.peek]; rfl

lemma agrees_atName (text : String) : Agrees r (atName text) (atName text) :=
  agrees_look fun s s' hs => by rw [eq_of_alike hs.peek]; rfl

lemma agrees_atEnd : Agrees r atEnd atEnd := agrees_look fun s s' hs => by rw [eq_of_alike hs.peek]; rfl

/-! Tokens, messages and nodes. -/

/-- Tests that do not look at the place of a token. -/
def Blind (test : Token → Bool) : Prop := ∀ t span, test { t with span } = test t

lemma agrees_report (fault : GrammarFault) {o o' : Nat} (ho : r.pairs o o') :
    Agrees r (report o fault) (report o' fault) := fun _ _ hs => ⟨rfl,hs.report ho fault⟩

lemma agrees_reportHere (fault : GrammarFault) : Agrees r (reportHere fault) (reportHere fault) :=
  fun _ _ hs => ⟨rfl,hs.report hs.front fault⟩

lemma agrees_reportIf (wrong : Bool) (fault : GrammarFault) :
    Agrees r (reportIf wrong fault) (reportIf wrong fault) :=
  agrees_ite (agrees_reportHere fault) (agrees_pure rfl)

lemma agrees_skipIf (asked : Bool) : Agrees r (skipIf asked) (skipIf asked) :=
  agrees_ite agrees_skip (agrees_pure rfl)

lemma agrees_announce {d d' : Directive} (h : d.bare = d'.bare) : Agrees r (announce d) (announce d') := by
  intro s s' hs
  refine ⟨rfl,hs.rest,hs.eof,hs.taken,hs.nodes,hs.diagnostics,?_,hs.allowIn,hs.inAsync,hs.inGenerator,hs.depth⟩
  change (s.directives.push d).map Directive.bare = (s'.directives.push d').map Directive.bare
  rw [Array.map_push,Array.map_push,hs.directives,h]

lemma agrees_make {span span' : Span} {kind kind' : Kind Node} (hspan : r.pairs span.start span'.start)
    (hkind : kind.bare = kind'.bare) : Agrees r (make span kind) (make span' kind') := by
  intro s s' hs
  obtain ⟨hbare,ht⟩ := hs.make span span' hkind
  exact ⟨⟨hbare,hspan⟩,ht⟩

lemma agrees_finish (o : Twin r Nat) {kind kind' : Kind Node} (hkind : kind.bare = kind'.bare) :
    Agrees r (finish kind o.left) (finish kind' o.right) := by
  intro s s' hs
  obtain ⟨hbare,ht⟩ := hs.make (s.spanFrom o.left) (s'.spanFrom o.right) hkind
  exact ⟨⟨hbare,o.alike⟩,ht⟩

lemma agrees_errorNode : Agrees r errorNode errorNode := by
  intro s s' hs
  have herror : (Kind.error : Kind Node).bare = Kind.bare .error := rfl
  obtain ⟨hbare,ht⟩ := hs.make ⟨s.front, s.front⟩ ⟨s'.front, s'.front⟩ herror
  exact ⟨⟨hbare,hs.front⟩,ht⟩

lemma agrees_missing (fault : GrammarFault) : Agrees r (missingPrimary fault) (missingPrimary fault) :=
  (agrees_reportHere fault).next fun _ => agrees_errorNode

lemma agrees_eat {test : Token → Bool} (h : Blind test) : Agrees r (eat test) (eat test) := by
  refine agrees_peek fun t span => ?_
  rw [h t span]
  exact agrees_ite (agrees_skip.next fun _ => agrees_pure rfl) (agrees_pure rfl)

lemma agrees_eatPunct (text : String) : Agrees r (eatPunct text) (eatPunct text) :=
  agrees_eat fun _ _ => rfl

lemma agrees_eatName (text : String) : Agrees r (eatName text) (eatName text) := agrees_eat fun _ _ => rfl

lemma agrees_expect {test : Token → Bool} (h : Blind test) (text : String) :
    Agrees r (expect test text) (expect test text) :=
  (agrees_eat h).next fun _ => agrees_ite (agrees_pure rfl)
    ((agrees_reportHere _).next fun _ => agrees_pure rfl)

lemma agrees_expectPunct (text : String) : Agrees r (expectPunct text) (expectPunct text) :=
  agrees_expect (fun _ _ => rfl) text

lemma agrees_punct (text : String) :
    Agrees r (Functor.discard (expectPunct text)) (Functor.discard (expectPunct text)) :=
  (agrees_expectPunct text).discard

lemma agrees_word (text : String) :
    Agrees r (Functor.discard (expectName text)) (Functor.discard (expectName text)) :=
  (agrees_expect (fun _ _ => rfl) text).discard

lemma agrees_endStatement : Agrees r endStatement endStatement :=
  (agrees_eatPunct ";").next fun _ => agrees_ite (agrees_pure rfl)
    (agrees_peek fun _ _ => agrees_ite (agrees_pure rfl) (agrees_reportHere _))

lemma agrees_optionally {present : Parser Bool} (hpresent : Agrees r present present) (h : Agrees r p p') :
    Agrees r (optionally present p) (optionally present p') :=
  hpresent.next fun _ => agrees_ite (h.map fun a => .some a.alike) (agrees_pure .none)

lemma agrees_finishStatement (o : Twin r Nat) {kind kind' : Kind Node} (hkind : kind.bare = kind'.bare) :
    Agrees r (finishStatement kind o.left) (finishStatement kind' o.right) :=
  agrees_get fun _ _ _ => agrees_endStatement.next fun _ => agrees_make o.alike hkind

/-! Surroundings. -/

/-- A part between two changes to the surroundings. -/
lemma Agrees.inside {f f' g g' : State → State} (hf : ∀ s s', s.Alike r s' → (f s).Alike r (f' s'))
    (hg : ∀ s s', s.Alike r s' → (g s).Alike r (g' s')) (h : Agrees r p p') :
    Agrees r (do
      modify f
      let result ← p
      modify g
      pure result) (do
      modify f'
      let result ← p'
      modify g'
      pure result) := by
  have changed {f f' : State → State} (hf : ∀ s s', s.Alike r s' → (f s).Alike r (f' s')) :
      Agrees (α := Unit) r (modify f) (modify f') := fun s s' hs => ⟨rfl,hf s s' hs⟩
  exact (changed hf).next fun _ => h.bind fun a => (changed hg).next fun _ => agrees_pure a.alike

lemma Agrees.withIn (allowed : Bool) (h : Agrees r p p') : Agrees r (withIn allowed p) (withIn allowed p') := by
  refine agrees_get fun s s' hs => Agrees.inside (fun t t' ht => ?_) (fun t t' ht => ?_) h
  · exact { ht with allowIn := rfl }
  · exact { ht with allowIn := hs.allowIn }

lemma Agrees.inFunction (async generator : Bool) (h : Agrees r p p') :
    Agrees r (inFunction async generator p) (inFunction async generator p') := by
  refine agrees_get fun s s' hs => Agrees.inside (fun t t' ht => ?_) (fun t t' ht => ?_) h
  · exact { ht with inAsync := rfl, inGenerator := rfl }
  · exact { ht with inAsync := hs.inAsync, inGenerator := hs.inGenerator }

/-! Names. -/

lemma agrees_identifier : Agrees r identifier identifier :=
  agrees_peek fun _ _ => agrees_ite
    (agrees_bump fun _ _ => agrees_pure (.some rfl))
    ((agrees_reportHere _).next fun _ => agrees_pure .none)

lemma agrees_bindingIdentifier : Agrees r bindingIdentifier bindingIdentifier :=
  agrees_peek fun _ _ => agrees_ite agrees_identifier ((agrees_reportHere _).next fun _ => agrees_pure .none)

/-! Goals. -/

/-- A way to read goals that does not depend on places. -/
def Uniform (r : Relocation) (go : Reader) : Prop := ∀ goal, Agrees r (go goal) (go goal)

lemma Uniform.nested {go : Reader} (h : Uniform r go) (goal : Goal) :
    Agrees r (nested go goal) (nested go goal) := by
  refine agrees_get fun s s' hs => ?_
  rw [hs.depth]
  refine agrees_ite (agrees_missing .tooDeep) (Agrees.inside (fun t t' ht => ?_) (fun t t' ht => ?_) (h goal))
  · exact { ht with depth := congrArg (· + 1) ht.depth }
  · exact { ht with depth := congrArg (· - 1) ht.depth }

/-! Loops. -/

lemma Agrees.collectWithin {round round' : Parser (Round α)} (h : Agrees r round round') (rounds : Nat) :
    Agrees r (collectWithin round rounds) (collectWithin round' rounds) := by
  induction rounds with
  | zero => exact fun _ _ _ => trivial
  | succ rounds ih =>
    refine h.bind fun ⟨⟨items,more⟩,⟨items',more'⟩,hitems,hmore⟩ => ?_
    obtain rfl : more = more' := hmore
    exact agrees_ite (ih.bind fun later => agrees_pure (List.rel_append hitems later.alike)) (agrees_pure hitems)

lemma Agrees.collect {round round' : Parser (Round α)} (h : Agrees r round round') :
    Agrees r (collect round) (collect round') :=
  agrees_upcoming fun l l' hl => by
    rw [hl.length_eq]
    exact h.collectWithin _

lemma Agrees.iterateWithin {step step' : α → Parser (Option α)}
    (h : ∀ a : Twin r α, Agrees r (step a.left) (step' a.right)) (rounds : Nat) (a : Twin r α) :
    Agrees r (iterateWithin step rounds a.left) (iterateWithin step' rounds a.right) := by
  induction rounds generalizing a with
  | zero => exact fun _ _ _ => trivial
  | succ rounds ih => exact (h a).choose ih (agrees_pure a.alike)

lemma Agrees.iterate {step step' : α → Parser (Option α)}
    (h : ∀ a : Twin r α, Agrees r (step a.left) (step' a.right)) (a : Twin r α) :
    Agrees r (iterate step a.left) (iterate step' a.right) :=
  agrees_upcoming fun l l' hl => by
    rw [hl.length_eq]
    exact Agrees.iterateWithin h _ a

lemma Agrees.progressing (h : Agrees r p p') : Agrees r (progressing p) (progressing p') :=
  agrees_taken fun _ => h.bind fun a => agrees_taken fun _ => (agrees_skipIf _).next fun _ => agrees_pure a.alike

lemma Agrees.roundUntil {stops : Token → Bool} (hstops : Blind stops) {round round' : Parser (Round α)}
    (h : Agrees r round round') : Agrees r (roundUntil stops round) (roundUntil stops round') := by
  refine agrees_peek fun t span => ?_
  rw [hstops t span]
  exact agrees_ite (agrees_pure ⟨.nil,rfl⟩) h

lemma Agrees.collectUntil {stops : Token → Bool} (hstops : Blind stops) {round round' : Parser (Round α)}
    (h : Agrees r round round') : Agrees r (collectUntil stops round) (collectUntil stops round') :=
  (h.roundUntil hstops).collect

lemma Agrees.one (h : Agrees r p p') : Agrees r (one p) (one p') :=
  h.bind fun a => agrees_pure (.cons a.alike .nil)

lemma Agrees.everyRound {part part' : Parser (List α)} (h : Agrees r part part') :
    Agrees r (everyRound part) (everyRound part') :=
  h.progressing.bind fun items => agrees_pure ⟨items.alike,rfl⟩

lemma Agrees.commaRound {part part' : Parser (List α)} (h : Agrees r part part') :
    Agrees r (commaRound part) (commaRound part') :=
  h.progressing.bind fun items => (agrees_eatPunct ",").next fun _ => agrees_pure ⟨items.alike,rfl⟩

lemma Agrees.commaSeparated (close : String) {part part' : Parser (List α)} (h : Agrees r part part') :
    Agrees r (commaSeparated close part) (commaSeparated close part') :=
  h.commaRound.collectUntil fun _ _ => rfl

end

end QmlCodeModel.Grammar
