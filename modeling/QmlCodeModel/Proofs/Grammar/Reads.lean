import QmlCodeModel.Grammar.Source
import QmlCodeModel.Proofs.Token.Stream
import QmlCodeModel.Proofs.Tree.Formed

/-! What a part of the grammar may do to the state that it starts from, whatever it reads. `Reads s xs t`
says that the grammar can come from `s` to `t` with the nodes `xs`. What holds of all readings is then an
induction over these steps. -/
namespace QmlCodeModel.Grammar

namespace State

/-- A template comes next, and no goal can be nested deeper. The tail of an operand takes nothing in
such a state, and yet goes on. -/
def Stalled (s : State) : Prop := s.peek.kind = .template ∧ maxNesting ≤ s.depth

/-- How many goals can be opened inside one another from here: each takes a level or a token. -/
def budget (s : State) : Nat := (maxNesting - s.depth) + s.rest.length

/-- The tokens to come are in order behind those taken. -/
def Ordered (s : State) : Prop := Spread s.eof.span.start s.previousStop s.rest

structure Ready (s : State) : Prop where
  eof : s.eof.kind = .eof
  ordered : s.Ordered
  texts : ∀ t ∈ s.rest, t.text ≠ ""

/-- So many levels of goals suffice from here on. -/
structure Within (m : Nat) (s : State) : Prop extends s.Ready where
  budget : s.budget ≤ m

def inContext (s : State) (allowIn async generator : Bool) : State :=
  { s with allowIn, inAsync := async, inGenerator := generator }

/-- What every reading leaves as it was, and that it only goes forward. -/
structure Follows (s t : State) : Prop where
  rest : t.rest <:+ s.rest
  eof : t.eof = s.eof
  depth : t.depth = s.depth
  allowIn : t.allowIn = s.allowIn
  inAsync : t.inAsync = s.inAsync
  inGenerator : t.inGenerator = s.inGenerator
  taken : t.taken + t.rest.length = s.taken + s.rest.length
  order : s.Ordered → t.Ordered ∧ s.previousStop ≤ t.previousStop ∧ s.front ≤ t.front

lemma Follows.refl (s : State) : s.Follows s :=
  ⟨List.suffix_rfl,rfl,rfl,rfl,rfl,rfl,rfl,fun h => ⟨h,Nat.le_refl _,Nat.le_refl _⟩⟩

lemma Follows.trans {s t u : State} (h : s.Follows t) (h' : t.Follows u) : s.Follows u where
  rest := h'.rest.trans h.rest
  eof := h'.eof.trans h.eof
  depth := h'.depth.trans h.depth
  allowIn := h'.allowIn.trans h.allowIn
  inAsync := h'.inAsync.trans h.inAsync
  inGenerator := h'.inGenerator.trans h.inGenerator
  taken := h'.taken.trans h.taken
  order := by
    intro hs
    obtain ⟨ht,hstop,hfront⟩ := h.order hs
    obtain ⟨hu,hstop',hfront'⟩ := h'.order ht
    exact ⟨hu,Nat.le_trans hstop hstop',Nat.le_trans hfront hfront'⟩

lemma Follows.length_le {s t : State} (h : s.Follows t) : t.rest.length ≤ s.rest.length :=
  h.rest.length_le

lemma Follows.within {m : Nat} {s t : State} (h : s.Follows t) (hs : s.Within m) : t.Within m where
  eof := by rw [h.eof]; exact hs.eof
  ordered := (h.order hs.ordered).1
  texts t ht := hs.texts t (h.rest.subset ht)
  budget := by
    have := h.length_le
    have := hs.budget
    unfold State.budget at *
    rw [h.depth]
    omega

lemma Ordered.previousStop_le_front {s : State} (h : s.Ordered) : s.previousStop ≤ s.front := by
  unfold Ordered at h
  unfold front peek
  cases hrest : s.rest with
  | nil =>
    rw [hrest] at h
    exact h
  | cons t rest =>
    rw [hrest] at h
    exact h.1

lemma follows_advance (s : State) : s.Follows s.advance := by
  unfold advance
  split
  · exact .refl s
  rename_i t rest hrest
  refine ⟨?_,rfl,rfl,rfl,rfl,rfl,?_,fun h => ?_⟩
  · rw [hrest]
    exact List.suffix_cons t rest
  · simp only [hrest,List.length_cons]
    omega
  · unfold Ordered at h
    rw [hrest] at h
    obtain ⟨hstart,hlt,hlater⟩ := h
    have hfront := Ordered.previousStop_le_front
      (s := { s with rest, taken := s.taken + 1, previousStop := t.span.stop }) hlater
    have : s.front = t.span.start := by simp [front,peek,hrest]
    exact ⟨hlater,by simp only; omega,by simp only at hfront; omega⟩

lemma peek_advance (s : State) : s.advance.peek = s.ahead 1 := by
  cases h : s.rest <;> simp [advance,peek,ahead,h]

/-- What stands where the head of an arrow function starts. -/
lemma arrowHeadAt_eq_some {s : State} {n : Nat} {head : ArrowHead} (h : s.arrowHeadAt n = some head) :
    head = .name ∧ (s.ahead n).isBindable ∨ head = .list ∧ (s.ahead n).isPunct "(" := by
  unfold arrowHeadAt at h
  split at h
  · rename_i hname
    simp only [Bool.and_eq_true] at hname
    cases h
    exact .inl ⟨rfl,hname.1⟩
  split at h
  · rename_i hlist
    simp only [arrowListAt,Bool.and_eq_true] at hlist
    cases h
    exact .inr ⟨rfl,hlist.1⟩
  · cases h

lemma follows_report (s : State) (offset : Nat) (fault : GrammarFault) :
    s.Follows (s.report offset fault) := by
  unfold report
  split
  · exact .refl s
  · exact ⟨List.suffix_rfl,rfl,rfl,rfl,rfl,rfl,rfl,fun h => ⟨h,Nat.le_refl _,Nat.le_refl _⟩⟩

/-- Leaving out what is to come. -/
lemma follows_skip (s : State) :
    s.Follows { s with rest := [], taken := s.taken + s.rest.length } := by
  refine ⟨List.nil_suffix,rfl,rfl,rfl,rfl,rfl,by simp,fun h => ⟨h.le,Nat.le_refl _,?_⟩⟩
  change s.front ≤ s.eof.span.start
  unfold Ordered at h
  unfold front peek
  cases hrest : s.rest with
  | nil => simp
  | cons t rest =>
    rw [hrest] at h
    have := h.2.2.le
    have := h.2.1
    simp only [List.headD_cons]
    omega

/-! What a message and a token taken leave as it is. -/

section

variable (s : State) (offset : Nat) (fault : GrammarFault)

@[simp] lemma rest_report : (s.report offset fault).rest = s.rest := by
  unfold report
  split <;> rfl

@[simp] lemma nodes_report : (s.report offset fault).nodes = s.nodes := by
  unfold report
  split <;> rfl

@[simp] lemma lines_report : (s.report offset fault).lines = s.lines := by
  unfold report
  split <;> rfl

@[simp] lemma front_report : (s.report offset fault).front = s.front := by
  unfold report
  split <;> rfl

@[simp] lemma nodes_advance : s.advance.nodes = s.nodes := by
  unfold advance
  split <;> rfl

@[simp] lemma lines_advance : s.advance.lines = s.lines := by
  unfold advance
  split <;> rfl

@[simp] lemma diagnostics_advance : s.advance.diagnostics = s.diagnostics := by
  unfold advance
  split <;> rfl

end

end State

/-- An answer of one part after another is one of the second part, after one of the first. -/
lemma bind_eq_ok {α β : Type} {p : Parser α} {k : α → Parser β} {t v : State} {b : β}
    (h : (p >>= k) t = .ok (b, v)) : ∃ a u, p t = .ok (a, u) ∧ k a u = .ok (b, v) := by
  simp only [Bind.bind,StateT.bind] at h
  cases hp : p t with
  | error e =>
    rw [hp] at h
    cases h
  | ok r =>
    rw [hp] at h
    exact ⟨r.1,r.2,rfl,h⟩

/-- The grammar can come from one state to another with these nodes. -/
inductive Reads : State → List Node → State → Prop
  | nothing (s : State) : Reads s [] s
  | append {s t u : State} {xs ys : List Node} (h : Reads s xs t) (h' : Reads t ys u) :
    Reads s (xs ++ ys) u
  | token (s : State) : Reads s [] s.advance
  | complaint (s : State) (offset : Nat) (fault : GrammarFault) : Reads s [] (s.report offset fault)
  | directive (s : State) (d : Directive) : Reads s [] { s with directives := s.directives.push d }
  | skip (s : State) : Reads s [] { s with rest := [], taken := s.taken + s.rest.length }
  /-- An error node in place of what is not there. -/
  | missing (s : State) : Reads s [(s.make ⟨s.front, s.front⟩ .error).1] (s.make ⟨s.front, s.front⟩ .error).2
  /-- A layer around the nodes read so far. More may be taken before it is made. -/
  | layer {s t u : State} (kind : Kind Node) (span : Span) (h : Reads s kind.children t)
    (h' : Reads t [] u) (placed : kind.Placed s.front t.previousStop span) (named : kind.Named span)
    (formed : kind.Formed s.rest span) :
    Reads s [(u.make span kind).1] (u.make span kind).2
  /-- A declared property with an array of objects. The array is made at its brackets, apart from the
  name that it is bound to. -/
  | declaredArray {s t u : State} {members : List Node} (m : PublicMember Node) (array : Node × State)
    (h : Reads s [] t) (h' : Reads t members u) (statement : m.statement = none)
    (name : s.front ≤ m.name.span.start) (lt : m.name.span.start < t.front)
    (closed : t.front < u.previousStop)
    (made : array = u.make (u.spanFrom t.front) (.arrayBinding ⟨[m.name]⟩ members (u.spanFrom t.front))) :
    Reads s [(array.2.make (array.2.spanFrom s.front) (.publicMember { m with binding := some array.1 })).1]
      (array.2.make (array.2.spanFrom s.front) (.publicMember { m with binding := some array.1 })).2
  /-- A reading in other surroundings. -/
  | inside {s t : State} {xs : List Node} (allowIn async generator : Bool)
    (h : Reads (s.inContext allowIn async generator) xs t) :
    Reads s xs (t.inContext s.allowIn s.inAsync s.inGenerator)
  /-- A reading one level deeper. -/
  | deeper {s t : State} {xs : List Node} (room : s.depth < maxNesting)
    (h : Reads { s with depth := s.depth + 1 } xs t) : Reads s xs { t with depth := t.depth - 1 }

namespace Reads

variable {s t u : State} {xs ys : List Node}

lemma congr (h : Reads s xs t) (hxs : xs = ys) (ht : t = u) : Reads s ys u := by
  subst hxs ht
  exact h

/-- Every reading goes forward and leaves the surroundings as they were. -/
theorem follows (h : Reads s xs t) : s.Follows t := by
  have made {s t : State} {span : Span} {kind : Kind Node} (h : s.Follows t) :
      s.Follows (t.make span kind).2 :=
    ⟨h.rest,h.eof,h.depth,h.allowIn,h.inAsync,h.inGenerator,h.taken,h.order⟩
  induction h with
  | nothing s => exact .refl s
  | append _ _ ih ih' => exact ih.trans ih'
  | token s => exact s.follows_advance
  | complaint s offset fault => exact s.follows_report offset fault
  | directive s d =>
    exact ⟨List.suffix_rfl,rfl,rfl,rfl,rfl,rfl,rfl,fun h => ⟨h,Nat.le_refl _,Nat.le_refl _⟩⟩
  | skip s => exact s.follows_skip
  | missing s => exact made (.refl s)
  | layer kind span _ _ _ _ _ ih ih' => exact made (ih.trans ih')
  | declaredArray m array _ _ _ _ _ _ harray ih ih' =>
    subst harray
    exact made (made (ih.trans ih'))
  | inside _ _ _ _ ih => exact ⟨ih.rest,ih.eof,ih.depth,rfl,rfl,rfl,ih.taken,ih.order⟩
  | deeper _ _ ih =>
    refine ⟨ih.rest,ih.eof,?_,ih.allowIn,ih.inAsync,ih.inGenerator,ih.taken,ih.order⟩
    have := ih.depth
    simp only at this ⊢
    omega

end Reads

end QmlCodeModel.Grammar
