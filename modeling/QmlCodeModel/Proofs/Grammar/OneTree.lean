import Mathlib.Data.List.Nodup
import Mathlib.Data.List.Perm.Basic
import QmlCodeModel.Proofs.Grammar.Objects

/-! The nodes that are made for a source are one tree. What hangs below a node has been made before it,
and nothing that has been made is left out or hangs at two places. -/
namespace QmlCodeModel

namespace Node

/-- Each node of a tree but the first hangs below one. -/
lemma walk_perm_children (n : Node) : n.walk.Perm (n :: n.walk.flatMap children) := by
  induction n using Node.walk.induct with
  | case1 n ih =>
    rw [walk_eq,List.flatMap_cons,List.flatMap_assoc]
    refine List.Perm.cons n ?_
    have hsplit := List.map_append_flatMap_perm n.children (fun c => c) fun c => c.walk.flatMap children
    rw [List.map_id'] at hsplit
    exact (List.Perm.flatMap_left _ ih).trans hsplit.symm

/-- The numbers that are met on a walk from one of them, when each node is looked up at its number. The
walk is given up where it leads deeper than so many levels. -/
def numbersFrom (nodes : Array Node) : Nat → Nat → Option (List Nat)
  | 0, _ => none
  | levels + 1, id => do
    let n ← nodes[id]?
    let below ← n.children.mapM fun c => numbersFrom nodes levels c.id
    return id :: below.flatten

lemma mapM_eq_some {α β : Type} {f : α → Option β} {g : α → β} {xs : List α}
    (h : ∀ x ∈ xs, f x = some (g x)) : xs.mapM f = some (xs.map g) := by
  induction xs with
  | nil => rfl
  | cons x xs ih =>
    rw [List.forall_mem_cons] at h
    rw [List.mapM_cons,h.1,ih h.2]
    rfl

lemma numbersFrom_eq {nodes : Array Node} {n : Node} (hstored : ∀ x ∈ n.walk, nodes[x.id]? = some x)
    (hearlier : ∀ x ∈ n.walk, ∀ c ∈ x.children, c.id < x.id) {levels : Nat} (hlevels : n.id < levels) :
    numbersFrom nodes levels n.id = some (n.walk.map id) := by
  induction n using Node.walk.induct generalizing levels with
  | case1 n ih =>
    cases levels with
    | zero => exact absurd hlevels (Nat.not_lt_zero _)
    | succ levels =>
      have hbelow : (n.children.mapM fun c => numbersFrom nodes levels c.id) =
          some (n.children.map fun c => c.walk.map id) := by
        refine mapM_eq_some fun c hc => ih c hc (fun x hx => ?_) (fun x hx => ?_) ?_
        · exact hstored x (mem_walk_of_mem_children hc hx)
        · exact hearlier x (mem_walk_of_mem_children hc hx)
        · exact Nat.lt_of_lt_of_le (hearlier n n.mem_walk_self c hc) (Nat.le_of_lt_succ hlevels)
      rw [numbersFrom,hstored n n.mem_walk_self]
      simp only [Option.bind_eq_bind,Option.bind_some,hbelow]
      rw [walk_eq,List.map_cons,List.map_flatMap]
      rfl

end Node

namespace Grammar

/-- What has been made since one state are these trees, and each of their nodes came behind those below it. -/
structure Grows (s : State) (xs : List Node) (t : State) : Prop where
  made : ∃ made, t.nodes.toList = s.nodes.toList ++ made ∧ made.Perm (xs.flatMap Node.walk)
  earlier : ∀ x ∈ xs.flatMap Node.walk, ∀ c ∈ x.children, c.id < x.id

namespace Grows

variable {s t u : State} {xs ys : List Node}

lemma silent (h : t.nodes = s.nodes) : Grows s [] t :=
  ⟨⟨[],by simp [h],.nil⟩,by simp⟩

lemma append (h : Grows s xs t) (h' : Grows t ys u) : Grows s (xs ++ ys) u := by
  obtain ⟨made,hmade,hperm⟩ := h.made
  obtain ⟨made',hmade',hperm'⟩ := h'.made
  rw [hmade,List.append_assoc] at hmade'
  refine ⟨⟨made ++ made',hmade',?_⟩,fun x hx => ?_⟩
  · rw [List.flatMap_append]
    exact hperm.append hperm'
  · rw [List.flatMap_append] at hx
    obtain hx | hx := List.mem_append.mp hx
    · exact h.earlier x hx
    · exact h'.earlier x hx

/-- A layer is made behind the nodes it lies around. -/
lemma layer (kind : Kind Node) (span : Span) (h : Grows s kind.children t)
    (hnumbered : Numbered s kind.children t) : Grows s [(t.make span kind).1] (t.make span kind).2 := by
  obtain ⟨made,hmade,hperm⟩ := h.made
  refine ⟨⟨made ++ [(t.make span kind).1],?_,?_⟩,Node.forall_walk (fun c hc => ?_) h.earlier⟩
  · simp [State.make,hmade]
  · rw [List.flatMap_singleton,Node.walk_eq]
    exact List.perm_append_singleton _ _ |>.trans (hperm.cons _)
  · exact hnumbered.lt (List.mem_flatMap.mpr ⟨c,hc,c.mem_walk_self⟩)

/-- The surroundings do not matter. -/
lemma congr {s' t' : State} (h : Grows s xs t) (hs : s'.nodes = s.nodes) (ht : t'.nodes = t.nodes) :
    Grows s' xs t' :=
  ⟨by rw [hs,ht]; exact h.made,h.earlier⟩

end Grows

/-- A reading makes the nodes it answers, and no other. -/
theorem Reads.grows {s t : State} {xs : List Node} (h : Reads s xs t) : Grows s xs t := by
  induction h with
  | nothing s => exact .silent rfl
  | append _ _ ih ih' => exact ih.append ih'
  | token s => exact .silent s.nodes_advance
  | complaint s offset fault => exact .silent (s.nodes_report offset fault)
  | directive s d => exact .silent rfl
  | skip s => exact .silent rfl
  | missing s => exact Grows.layer _ _ (.silent rfl) (.silent rfl)
  | layer kind span h h' _ _ _ ih ih' =>
    have hgrows := ih.append ih'
    have hnumbered := h.numbered.append h'.numbered
    rw [List.append_nil] at hgrows hnumbered
    exact hgrows.layer kind span hnumbered
  | @declaredArray s t u members m array h h' statement _ _ _ made ih ih' =>
    subst made
    have hgrows : Grows s members u := ih.append ih'
    have hnumbered : Numbered s members u := h.numbered.append h'.numbered
    have harray := hgrows.layer (.arrayBinding ⟨[m.name]⟩ members (u.spanFrom t.front)) (u.spanFrom t.front)
      hnumbered
    have hnumbered := hnumbered.layer (.arrayBinding ⟨[m.name]⟩ members (u.spanFrom t.front))
      (u.spanFrom t.front)
    apply Grows.layer
    · simpa [Kind.children,statement] using harray
    · simpa [Kind.children,statement] using hnumbered
  | inside _ _ _ _ ih => exact ih.congr rfl rfl
  | deeper _ _ ih => exact ih.congr rfl rfl

/-- All that is made for a source are the nodes of its tree. -/
lemma grows_of_parse? {form : SourceForm} {source : String} {p : Parse}
    (h : parse? form source = some p) :
    p.root.walk.Perm p.nodes.toList ∧ ∀ x ∈ p.root.walk, p.nodes[x.id]? = some x ∧
      ∀ c ∈ x.children, c.id < x.id := by
  obtain ⟨root,t,hreading,hroot,hnodes,-⟩ := reading_of_parse? h
  have hgrown : Grows (opening source.toList) [root] t ∧ Numbered (opening source.toList) [root] t := by
    cases roots_reading hreading with
    | document hreads => exact ⟨hreads.grows.layer _ _ hreads.numbered,hreads.numbered.layer _ _⟩
    | program hreads => exact ⟨hreads.grows.layer _ _ hreads.numbered,hreads.numbered.layer _ _⟩
    | expression hreads => exact ⟨hreads.grows,hreads.numbered⟩
  obtain ⟨⟨⟨made,hmade,hperm⟩,hearlier⟩,hnumbered⟩ := hgrown
  have hempty : (opening source.toList).nodes = #[] := (fresh_opening source.toList).nodes
  rw [hempty,List.nil_append] at hmade
  rw [List.flatMap_singleton] at hperm hearlier
  have hstored := hnumbered.stored
  rw [List.flatMap_singleton] at hstored
  rw [hroot,hnodes,hmade]
  exact ⟨hperm.symm,fun x hx => ⟨(hstored x hx).2,hearlier x hx⟩⟩

end Grammar

/-- The nodes made for a source are one tree. -/
structure Parse.IsOneTree (p : Parse) : Prop where
  /-- Each node stands at its own number. -/
  numbered : ∀ (i : Nat) (n : Node), p.nodes[i]? = some n → n.id = i
  /-- What hangs below a node stands at a smaller number. -/
  earlier : ∀ n ∈ p.nodes, ∀ c ∈ n.children, c.id < n.id ∧ p.nodes[c.id]? = some c
  /-- No node hangs below two nodes, or twice below one. -/
  once : (p.nodes.toList.flatMap fun n => n.children.map Node.id).Nodup
  /-- A walk from the root comes to its end. -/
  ends : Node.numbersFrom p.nodes p.nodes.size p.root.id = some (p.root.walk.map Node.id)
  /-- Such a walk meets each node once. -/
  complete : p.root.walk.Perm p.nodes.toList

/-- Nothing that is made for a source gets lost, and nothing is shared, whatever errors it has. -/
theorem isOneTree_of_parse? {form : SourceForm} {source : String} {p : Parse}
    (h : parse? form source = some p) : p.IsOneTree := by
  obtain ⟨hperm,hwalk⟩ := Grammar.grows_of_parse? h
  have hdistinct := Grammar.nodup_of_parse? h
  have hstored (n : Node) (hn : n ∈ p.nodes) :=
    hwalk n (hperm.mem_iff.mpr (Array.mem_toList_iff.mpr hn))
  have hids : (p.nodes.toList.map Node.id).Nodup := (hperm.map Node.id).nodup_iff.mp hdistinct
  refine ⟨fun i n hi => ?_,fun n hn c hc => ?_,?_,?_,hperm⟩
  · have hn := (hstored n (Array.mem_of_getElem? hi)).1
    rw [← Array.getElem?_toList] at hi hn
    have hlt := (List.getElem?_eq_some_iff.mp hn).1
    exact (List.getElem?_inj hlt (List.Nodup.of_map Node.id hids)).mp (hn.trans hi.symm)
  · have hwalked : n ∈ p.root.walk := hperm.mem_iff.mpr (Array.mem_toList_iff.mpr hn)
    refine ⟨(hstored n hn).2 c hc,(hwalk c ?_).1⟩
    exact Node.mem_walk_trans hwalked (Node.mem_walk_of_mem_children hc c.mem_walk_self)
  · have hbelow : (p.root.walk.map Node.id).Perm
        (p.root.id :: p.root.walk.flatMap fun n => n.children.map Node.id) := by
      have h := p.root.walk_perm_children.map Node.id
      rwa [List.map_cons,List.map_flatMap] at h
    have hnodup := (List.nodup_cons.mp (hbelow.nodup_iff.mp hdistinct)).2
    exact (hperm.flatMap_right _).nodup_iff.mp hnodup
  · obtain ⟨hlt,-⟩ := Array.getElem?_eq_some_iff.mp (hwalk p.root p.root.mem_walk_self).1
    exact Node.numbersFrom_eq (fun x hx => (hwalk x hx).1) (fun x hx => (hwalk x hx).2) hlt

/-- An array of objects in a declaration, a shorthand property and an error: the tree has all nodes. -/
theorem isOneTree_of_parse?_errors : ∃ p,
    parse? .qml "A \x7b property list<B> b: [B \x7b\x7d]; c: (\x7b d \x7d) e: \x7d" = some p ∧ p.IsOneTree := by
  have hread : (parse? .qml "A \x7b property list<B> b: [B \x7b\x7d]; c: (\x7b d \x7d) e: \x7d").isSome := by
    decide +kernel
  obtain ⟨p,hp⟩ := Option.isSome_iff_exists.mp hread
  exact ⟨p,hp,isOneTree_of_parse? hp⟩

end QmlCodeModel
