import QmlCodeModel.Proofs.Grammar.Reads

/-! What is read lies in the source in the order in which it was read, between the tokens at which the
reading starts and ends. -/
namespace QmlCodeModel.Grammar

/-- Nodes side by side between two tokens, when the last token taken ends at `last`. -/
structure Row (front last next : Nat) (xs : List Node) : Prop where
  start : ∀ x ∈ xs, front ≤ x.span.start
  below : ∀ x ∈ xs, x.Below next
  tight : ∀ x ∈ xs, x.Tight last
  apart : xs.Pairwise fun x y => x.Below y.span.start
  named : ∀ x ∈ xs, x.Named
  sound : ∀ x ∈ xs, x.Sound

namespace Row

variable {front last next last' next' : Nat} {xs ys : List Node} {n : Node}

lemma nil : Row front last next [] := ⟨by simp,by simp,by simp,.nil,by simp,by simp⟩

lemma append (h : Row front last next xs) (h' : Row next last' next' ys) (hfront : front ≤ next)
    (hlast : last ≤ last') (hnext : next ≤ next') : Row front last' next' (xs ++ ys) := by
  refine ⟨?_,?_,?_,?_,?_,?_⟩
  · intro x hx
    obtain hx | hx := List.mem_append.mp hx
    · exact h.start x hx
    · exact Nat.le_trans hfront (h'.start x hx)
  · intro x hx
    obtain hx | hx := List.mem_append.mp hx
    · exact (h.below x hx).mono hnext
    · exact h'.below x hx
  · intro x hx
    obtain hx | hx := List.mem_append.mp hx
    · exact (h.tight x hx).mono hlast
    · exact h'.tight x hx
  · refine List.pairwise_append.mpr ⟨h.apart,h'.apart,fun x hx y hy => ?_⟩
    exact (h.below x hx).mono (h'.start y hy)
  · exact fun x hx => (List.mem_append.mp hx).elim (h.named x) (h'.named x)
  · exact fun x hx => (List.mem_append.mp hx).elim (h.sound x) (h'.sound x)

lemma single (start : front ≤ n.span.start) (below : n.Below next) (tight : n.Tight last)
    (named : n.Named) (sound : n.Sound) : Row front last next [n] := by
  refine ⟨?_,?_,?_,List.pairwise_singleton _ _,?_,?_⟩ <;> simpa

/-- A layer around a row, which may be made after more has been taken. -/
lemma layer {id : Nat} {kind : Kind Node} {span : Span} (h : Row front last next kind.children)
    (placed : kind.Placed front last span) (named : kind.Named span) (hfront : front ≤ next')
    (hlast : last ≤ last') (hnext : next ≤ next') (hle : last' ≤ next') :
    Row front last' next' [.mk id span kind] := by
  have hbounds := placed.bounds (Nat.le_trans hlast hle) hfront fun c hc =>
    ⟨h.start c hc,(h.sound c hc).span_le,Nat.le_trans (h.below c hc).stop_le hnext⟩
  have hbelow : (Node.mk id span kind).Below next' :=
    .mk hbounds.2.2 fun c hc => (h.below c hc).mono hnext
  refine single hbounds.1 hbelow ((placed.tight h.tight).mono hlast) named ?_
  exact .mk front last placed hbounds.2.1 h.start h.tight h.apart (fun _ => h.named) h.sound

/-- A declared property around an array, which stands by itself in its brackets. -/
lemma declaredArray {id number : Nat} {m : PublicMember Node} {bracket : Nat}
    (h : Row bracket last next xs) (statement : m.statement = none) (name : front ≤ m.name.span.start)
    (lt : m.name.span.start < bracket) (closed : bracket < last) (hle : last ≤ next) :
    Row front last next [.mk number ⟨front, max last front⟩ (.publicMember { m with
      binding := some (.mk id ⟨bracket, max last bracket⟩
        (.arrayBinding ⟨[m.name]⟩ xs ⟨bracket, max last bracket⟩)) })] := by
  have hfront : front < last := by omega
  rw [Nat.max_eq_left (Nat.le_of_lt closed),Nat.max_eq_left (Nat.le_of_lt hfront)]
  let array : Node := .mk id ⟨bracket, last⟩ (.arrayBinding ⟨[m.name]⟩ xs ⟨bracket, last⟩)
  have hsound : array.Sound := by
    have hplaced : (Kind.arrayBinding ⟨[m.name]⟩ xs ⟨bracket, last⟩).Placed bracket last ⟨bracket, last⟩ :=
      ⟨rfl,Nat.le_refl _,closed,rfl,h.start⟩
    exact .mk bracket last hplaced (Nat.le_of_lt closed) h.start h.tight h.apart (fun _ => h.named) h.sound
  have htight : array.Tight last := (Node.tight_span (by simp) (by simp)).mpr fun _ => Nat.le_refl _
  have hplaced : (Kind.publicMember { m with binding := some array }).Placed front last ⟨front, last⟩ := by
    refine ⟨by rw [Nat.max_eq_left (Nat.le_of_lt hfront)],fun _ => ⟨name,by simp only; omega,?_⟩⟩
    rintro b ⟨⟩
    exact lt
  have hchildren : (Kind.publicMember { m with binding := some array }).children = [array] := by
    simp [Kind.children,statement]
  have hc : ∀ c ∈ (Kind.publicMember { m with binding := some array }).children, c = array :=
    fun c h => List.mem_singleton.mp (hchildren ▸ h)
  have hbelow : array.Below next := .mk hle h.below
  refine single (Nat.le_refl _) (.mk hle fun c h => hc c h ▸ hbelow) ?_ trivial ?_
  · exact (Node.tight_span (by simp) (by simp)).mpr fun _ => Nat.le_refl _
  refine .mk front last hplaced (Nat.le_of_lt hfront) ?_ ?_ ?_ (fun h => absurd rfl (h _)) ?_
  · intro c h
    rw [hc c h]
    change front ≤ bracket
    omega
  · exact fun c h => hc c h ▸ htight
  · change List.Pairwise _ (Kind.publicMember { m with binding := some array }).children
    rw [hchildren]
    exact List.pairwise_singleton _ _
  · exact fun c h => hc c h ▸ hsound

end Row

/-- What is read stands in a row. -/
theorem Reads.row {s t : State} {xs : List Node} (h : Reads s xs t) (hs : s.Ordered) :
    Row s.front t.previousStop t.front xs := by
  induction h with
  | nothing s => exact .nil
  | append h h' ih ih' =>
    obtain ⟨ht,-,hfront⟩ := h.follows.order hs
    obtain ⟨-,hlast,hnext⟩ := h'.follows.order ht
    exact (ih hs).append (ih' ht) hfront hlast hnext
  | token s => exact .nil
  | complaint s offset fault => exact .nil
  | directive s d => exact .nil
  | skip s => exact .nil
  | missing s =>
    refine .single (Nat.le_refl _) (.mk (Nat.le_refl _) (by simp [Kind.children])) ?_ trivial ?_
    · exact (Node.tight_span (by simp) (by simp)).mpr fun h => absurd h (Nat.lt_irrefl _)
    · have hplaced : Kind.error.Placed s.front s.front ⟨s.front, s.front⟩ := by simp [Kind.Placed]
      exact .mk s.front s.front hplaced (Nat.le_refl _) (by simp [Kind.children]) (by simp [Kind.children])
        (by simp [Kind.children]) (by simp [Kind.children]) (by simp [Kind.children])
  | layer kind span h h' placed named _ ih ih' =>
    obtain ⟨ht,-,hfront⟩ := h.follows.order hs
    obtain ⟨hu,hlast,hnext⟩ := h'.follows.order ht
    exact (ih hs).layer placed named (Nat.le_trans hfront hnext) hlast hnext hu.previousStop_le_front
  | declaredArray m array h h' statement name lt closed made ih ih' =>
    subst made
    obtain ⟨ht,-,hfront⟩ := h.follows.order hs
    obtain ⟨hu,hlast,hnext⟩ := h'.follows.order ht
    exact (ih' ht).declaredArray statement name lt closed hu.previousStop_le_front
  | inside allowIn async generator h ih => exact ih hs
  | deeper room h ih => exact ih hs

end QmlCodeModel.Grammar
