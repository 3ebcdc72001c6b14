import QmlCodeModel.Proofs.Grammar.Reads
import QmlCodeModel.Proofs.Tree.Objects

/-! The nodes of what is read stand at their numbers among all nodes made, behind those made before. So no
node hangs at two places of a tree. -/
namespace QmlCodeModel.Grammar

/-- The nodes at and below these have been made since one state, each once. -/
structure Numbered (s : State) (xs : List Node) (t : State) : Prop where
  grown : s.nodes.toList <+: t.nodes.toList
  stored : ∀ x ∈ xs.flatMap Node.walk, s.nodes.size ≤ x.id ∧ t.nodes[x.id]? = some x
  distinct : ((xs.flatMap Node.walk).map Node.id).Nodup

namespace Numbered

variable {s t u : State} {xs ys : List Node}

lemma size_le (h : Numbered s xs t) : s.nodes.size ≤ t.nodes.size := by
  simpa using h.grown.length_le

lemma lt (h : Numbered s xs t) {x : Node} (hx : x ∈ xs.flatMap Node.walk) : x.id < t.nodes.size := by
  obtain ⟨hlt,-⟩ := Array.getElem?_eq_some_iff.mp (h.stored x hx).2
  exact hlt

/-- Nodes stay where they are. -/
lemma kept {id : Nat} {x : Node} (h : s.nodes.toList <+: t.nodes.toList) (hx : s.nodes[id]? = some x) :
    t.nodes[id]? = some x := by
  rw [← Array.getElem?_toList] at hx ⊢
  obtain ⟨later,hlater⟩ := h
  obtain ⟨hlt,-⟩ := List.getElem?_eq_some_iff.mp hx
  rw [← hlater,List.getElem?_append_left hlt]
  exact hx

lemma silent (h : t.nodes = s.nodes) : Numbered s [] t :=
  ⟨by simp [h],by simp,by simp⟩

lemma append (h : Numbered s xs t) (h' : Numbered t ys u) : Numbered s (xs ++ ys) u := by
  refine ⟨h.grown.trans h'.grown,?_,?_⟩
  · intro x hx
    rw [List.flatMap_append] at hx
    obtain hx | hx := List.mem_append.mp hx
    · exact ⟨(h.stored x hx).1,kept h'.grown (h.stored x hx).2⟩
    · exact ⟨Nat.le_trans h.size_le (h'.stored x hx).1,(h'.stored x hx).2⟩
  · rw [List.flatMap_append,List.map_append,List.nodup_append]
    refine ⟨h.distinct,h'.distinct,?_⟩
    intro i hi j hj
    obtain ⟨x,hx,rfl⟩ := List.mem_map.mp hi
    obtain ⟨y,hy,rfl⟩ := List.mem_map.mp hj
    have := h.lt hx
    have := (h'.stored y hy).1
    omega

/-- A layer around nodes is made behind all of them. -/
lemma layer (kind : Kind Node) (span : Span) (h : Numbered s kind.children t) :
    Numbered s [(t.make span kind).1] (t.make span kind).2 := by
  have hwalk : [(t.make span kind).1].flatMap Node.walk =
      (t.make span kind).1 :: kind.children.flatMap Node.walk := by
    rw [List.flatMap_singleton,Node.walk_eq]
    rfl
  have hgrown : t.nodes.toList <+: (t.make span kind).2.nodes.toList := by simp [State.make]
  refine ⟨h.grown.trans hgrown,?_,?_⟩
  · rw [hwalk]
    intro x hx
    obtain rfl | hx := List.mem_cons.mp hx
    · refine ⟨h.size_le,?_⟩
      simp [State.make,Node.id]
    · exact ⟨(h.stored x hx).1,kept hgrown (h.stored x hx).2⟩
  · rw [hwalk,List.map_cons,List.nodup_cons]
    refine ⟨?_,h.distinct⟩
    intro hmem
    obtain ⟨x,hx,hid⟩ := List.mem_map.mp hmem
    have hlt := h.lt hx
    rw [hid] at hlt
    exact Nat.lt_irrefl _ hlt

/-- The surroundings do not matter. -/
lemma congr {s' t' : State} (h : Numbered s xs t) (hs : s'.nodes = s.nodes) (ht : t'.nodes = t.nodes) :
    Numbered s' xs t' := by
  refine ⟨?_,?_,h.distinct⟩
  · rw [hs,ht]
    exact h.grown
  · rw [hs,ht]
    exact h.stored

end Numbered

/-- What is read has been made while it was read. -/
theorem Reads.numbered {s t : State} {xs : List Node} (h : Reads s xs t) : Numbered s xs t := by
  induction h with
  | nothing s => exact .silent rfl
  | append _ _ ih ih' => exact ih.append ih'
  | token s => exact .silent s.nodes_advance
  | complaint s offset fault => exact .silent (s.nodes_report offset fault)
  | directive s d => exact .silent rfl
  | skip s => exact .silent rfl
  | missing s => exact Numbered.layer _ _ (Numbered.silent rfl)
  | layer kind span _ _ _ _ _ ih ih' =>
    have h := ih.append ih'
    rw [List.append_nil] at h
    exact h.layer kind span
  | @declaredArray s t u members m array _ _ statement _ _ _ made ih ih' =>
    subst made
    have h : Numbered s members u := ih.append ih'
    have harray := h.layer (.arrayBinding ⟨[m.name]⟩ members (u.spanFrom t.front)) (u.spanFrom t.front)
    apply Numbered.layer
    simpa [Kind.children,statement] using harray
  | inside _ _ _ _ ih => exact ih.congr rfl rfl
  | deeper _ _ ih => exact ih.congr rfl rfl

end QmlCodeModel.Grammar
