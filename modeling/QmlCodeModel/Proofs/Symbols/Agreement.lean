import Mathlib.Data.List.Basic
import QmlCodeModel.Proofs.Grammar.Objects
import QmlCodeModel.Proofs.Outline.Objects
import QmlCodeModel.Proofs.Ranges
import QmlCodeModel.Proofs.Symbols.Objects
import QmlCodeModel.Proofs.Tree.Objects

/-! The symbols, the ranges and the outline of a document agree on its objects. Each is read off the tree
in a way of its own, and all three are compared with the entries of the tree. -/
namespace QmlCodeModel

/-! The ranges of objects among the ranges of a tree belong to its objects, in the same order. -/

/-- A range of an object, in one of the three ways in which objects are written. -/
def RangeKind.isObject : RangeKind → Bool
  | .object | .objectBinding | .groupedBinding => true
  | .arrayBinding | .scriptBlock | .function => false

/-- The nodes that ranges of objects belong to. -/
def Ranges.objectNodes (r : Ranges) : List Nat := (r.toList.filter (·.kind.isObject)).map Range.node

lemma Ranges.toList_singleton (r : Range) (inner : List RangeTree) :
    toList ⟨[.mk r inner]⟩ = r :: toList ⟨inner⟩ := by
  unfold toList
  rw [List.flatMap_singleton,RangeTree.toList_eq]
  rfl

namespace Node

variable {n : Node} {f : ObjectForm}

lemma range?_of_object (h : n.objectForm? = some f) :
    ∃ r, n.range? = some r ∧ r.kind.isObject ∧ r.node = f.node := by
  rw [node_of_objectForm h]
  unfold objectForm? at h
  unfold range?
  split at h
  · rename_i typeName init hk
    rw [hk]
    refine ⟨_,rfl,?_,rfl⟩
    split <;> rfl
  · rename_i hk
    rw [hk]
    exact ⟨_,rfl,rfl,rfl⟩
  · cases h

lemma range?_of_none (h : n.objectForm? = none) {r : Range} (hr : n.range? = some r) :
    r.kind.isObject = false := by
  obtain ⟨id,span,kind⟩ := n
  cases kind
  case objectDefinition => cases h
  case objectBinding => cases h
  case arrayBinding =>
    cases hr
    rfl
  case functionDeclaration =>
    cases hr
    rfl
  case functionExpression =>
    cases hr
    rfl
  case scriptBinding name statement =>
    simp only [range?,Node.kind] at hr
    split at hr <;> cases hr
    rfl
  all_goals cases hr

/-- By induction on the tree; the range of an object stands before those in it. -/
theorem objectNodes_rangeTrees (owner : Option Nat) (n : Node) :
    Ranges.objectNodes ⟨n.rangeTrees⟩ = (n.entries owner).map ObjectEntry.node := by
  induction n using Node.walk.induct generalizing owner with
  | case1 n ih =>
    have hinner (owner : Option Nat) : Ranges.objectNodes ⟨n.innerTrees⟩ =
        (n.children.flatMap (entries owner)).map ObjectEntry.node := by
      unfold innerTrees Ranges.objectNodes Ranges.toList
      rw [List.flatMap_assoc,List.filter_flatMap,List.map_flatMap,List.map_flatMap]
      apply List.flatMap_congr
      intro c hc
      exact ih c hc owner
    rw [rangeTrees_eq]
    cases h : n.objectForm? with
    | some f =>
      obtain ⟨r,hr,hkind,hnode⟩ := range?_of_object h
      rw [entries_of_object owner h,List.map_cons,← hinner,hr]
      unfold Ranges.objectNodes
      rw [Ranges.toList_singleton,List.filter_cons,if_pos hkind,List.map_cons,hnode]
    | none =>
      rw [entries_of_none owner h,← hinner]
      cases hr : n.range? with
      | none => rfl
      | some r =>
        unfold Ranges.objectNodes
        rw [Ranges.toList_singleton,List.filter_cons,range?_of_none h hr]
        rfl

end Node

namespace SymbolTables

/-- The object that a node is. -/
def valueOf? (t : SymbolTables) (node : Nat) : Option ObjectValue :=
  (t.objectOf? node).bind fun i => t.objects[i]?

/-- The nodes of all objects. -/
def nodes (t : SymbolTables) : List Nat := t.objects.toList.map ObjectValue.node

variable {t : SymbolTables} {i node : Nat} {v : ObjectValue}

lemma nodes_eq (t : SymbolTables) : t.nodes = t.keys.map ObjectKey.node := by
  unfold nodes keys
  rw [List.map_map]
  rfl

/-- Where no node is two objects, the number of an object is found from its node. -/
lemma objectOf?_eq_some (h : t.nodes.Nodup) (hi : t.objects[i]? = some v) :
    t.objectOf? v.node = some i := by
  unfold objectOf?
  unfold nodes at h
  rw [← Array.getElem?_toList] at hi
  obtain ⟨hlt,hv⟩ := List.getElem?_eq_some_iff.mp hi
  rw [List.findIdx?_eq_some_iff_getElem]
  refine ⟨hlt,by simp [hv],?_⟩
  intro j hj hsame
  have hdiffer := List.pairwise_iff_getElem.mp (List.pairwise_map.mp h) j i (Nat.lt_trans hj hlt) hlt hj
  rw [hv] at hdiffer
  exact hdiffer (beq_iff_eq.mp hsame)

lemma valueOf?_eq_some (h : t.nodes.Nodup) (hi : t.objects[i]? = some v) : t.valueOf? v.node = some v := by
  unfold valueOf?
  rw [objectOf?_eq_some h hi,Option.bind_some]
  exact hi

lemma isSome_valueOf? (h : t.nodes.Nodup) : (t.valueOf? node).isSome ↔ node ∈ t.nodes := by
  constructor
  · intro hsome
    have hindex : (t.objectOf? node).isSome := Option.isSome_of_isSome_bind hsome
    unfold objectOf? at hindex
    rw [List.findIdx?_isSome,List.any_eq_true] at hindex
    obtain ⟨v,hv,hnode⟩ := hindex
    exact List.mem_map.mpr ⟨v,hv,beq_iff_eq.mp hnode⟩
  · intro hmem
    obtain ⟨v,hv,rfl⟩ := List.mem_map.mp hmem
    obtain ⟨i,hi⟩ := List.mem_iff_getElem?.mp hv
    rw [Array.getElem?_toList] at hi
    rw [valueOf?_eq_some h hi]
    rfl

/-- What an entry says of an object, the tables say too. -/
lemma value_of_entry {entries : List ObjectEntry} {e : ObjectEntry}
    (hadds : ObjectKey.Adds [] entries t.keys) (hnodup : t.nodes.Nodup) (he : e ∈ entries) :
    ∃ v, t.valueOf? e.node = some v ∧ v.node = e.node ∧ v.typeName = e.typeName ∧
      v.parent = e.owner.bind t.objectOf? := by
  obtain ⟨later,hkeys,hparents,rfl⟩ := hadds.later
  rw [List.nil_append] at hkeys
  subst hkeys
  obtain ⟨k,hk,rfl⟩ := List.mem_map.mp he
  obtain ⟨v,hv,rfl⟩ := List.mem_map.mp hk
  obtain ⟨i,hi⟩ := List.mem_iff_getElem?.mp hv
  rw [Array.getElem?_toList] at hi
  refine ⟨v,valueOf?_eq_some hnodup hi,rfl,rfl,?_⟩
  change v.parent = (v.parent.bind (ObjectKey.nodeAt t.keys)).bind t.objectOf?
  cases hparent : v.parent with
  | none => rfl
  | some j =>
    have hlt := hparents v.key hk j hparent
    obtain ⟨w,hw⟩ : ∃ w, t.objects[j]? = some w :=
      ⟨_,Array.getElem?_eq_getElem (by simpa [keys] using hlt)⟩
    have hnode : ObjectKey.nodeAt t.keys j = some w.node := by
      simp [ObjectKey.nodeAt,keys,hw,ObjectValue.key]
    rw [Option.bind_some,hnode,Option.bind_some,objectOf?_eq_some hnodup hw]

end SymbolTables

/-- Three indexes of a source agree on its objects. -/
structure Agreement (symbols : SymbolTables) (ranges : Ranges) (outline : Option Outline) : Prop where
  /-- No node is two objects, in any of the three. -/
  nodup : symbols.nodes.Nodup ∧ ranges.objectNodes.Nodup ∧
    ((outline.toList.flatMap Outline.objects).map Outline.node).Nodup
  /-- The nodes that have a range as objects are those that are objects to the symbols. -/
  ranged : ∀ node, node ∈ ranges.objectNodes ↔ (symbols.valueOf? node).isSome
  /-- So are the nodes in the outline. -/
  outlined : ∀ node, node ∈ (outline.toList.flatMap Outline.objects).map Outline.node ↔
    (symbols.valueOf? node).isSome
  typeName : ∀ o ∈ outline.toList.flatMap Outline.objects,
    ∃ v, symbols.valueOf? o.node = some v ∧ v.node = o.node ∧ v.typeName = o.typeName
  root : ∀ o ∈ outline, ∃ v, symbols.valueOf? o.node = some v ∧ v.parent = none
  /-- Any other object has an owner in the outline, which is its parent to the symbols. -/
  owner : ∀ c ∈ outline.toList.flatMap Outline.objects, c ∈ outline ∨
    ∃ o ∈ outline.toList.flatMap Outline.objects, c ∈ o.owned
  parent : ∀ o ∈ outline.toList.flatMap Outline.objects, ∀ c ∈ o.owned,
    ∃ v i, symbols.valueOf? c.node = some v ∧ v.parent = some i ∧ symbols.objectOf? o.node = some i

namespace Agreement

variable {symbols : SymbolTables} {root : Node}

/-- The symbols have the nodes of the entries, in the same order. -/
lemma nodes_of_adds (h : ObjectKey.Adds [] (root.entries none) symbols.keys) :
    symbols.nodes = (root.entries none).map ObjectEntry.node := by
  obtain ⟨later,hkeys,-,hentries⟩ := h.later
  rw [List.nil_append] at hkeys
  rw [SymbolTables.nodes_eq,← hentries,List.map_map,hkeys]
  rfl

end Agreement

/-- In the tree of a source, with errors or without, the symbols, the ranges and the outline have the same
objects, with the same types and the same owners. -/
theorem indexes_agree {source : String} {p : Parse} (h : parse? .qml source = some p) :
    Agreement (SymbolTables.ofRoot p.root) (Ranges.ofRoot p.root) p.root.outline? := by
  have hrooted := Grammar.rooted_of_parse? h
  have hadds := SymbolTables.adds_ofRoot hrooted
  have hperm := hrooted.perm_entries (Grammar.sound_of_parse? h)
  have hranged : (Ranges.ofRoot p.root).objectNodes = (p.root.entries none).map ObjectEntry.node :=
    Node.objectNodes_rangeTrees none p.root
  have hentries : ((p.root.entries none).map ObjectEntry.node).Nodup :=
    (Node.sublist_entries none p.root).nodup (Grammar.nodup_of_parse? h)
  have hnodes := Agreement.nodes_of_adds hadds
  have hnodup : (SymbolTables.ofRoot p.root).nodes.Nodup := hnodes ▸ hentries
  have houtlined : ((p.root.outline?.toList.flatMap Outline.objects).map Outline.node).Perm
      ((p.root.entries none).map ObjectEntry.node) := by
    have hmap := hperm.map ObjectEntry.node
    rw [List.map_flatMap] at hmap ⊢
    simpa only [Outline.map_node_entries] using hmap
  have hvalue {e : ObjectEntry} (he : e ∈ p.root.outline?.toList.flatMap (Outline.entries none)) :=
    SymbolTables.value_of_entry hadds hnodup (hperm.mem_iff.mp he)
  constructor
  case nodup =>
    rw [hranged]
    exact ⟨hnodup,hentries,houtlined.nodup_iff.mpr hentries⟩
  case ranged =>
    intro node
    rw [SymbolTables.isSome_valueOf? hnodup,hranged,hnodes]
  case outlined =>
    intro node
    rw [SymbolTables.isSome_valueOf? hnodup,houtlined.mem_iff,hnodes]
  case typeName =>
    intro x hx
    obtain ⟨o,ho,hx⟩ := List.mem_flatMap.mp hx
    obtain ⟨⟨owner,hmem⟩,-⟩ := Outline.mem_entries none hx
    obtain ⟨v,hv,hnode,htype,-⟩ := hvalue (List.mem_flatMap.mpr ⟨o,ho,hmem⟩)
    exact ⟨v,hv,hnode,htype⟩
  case root =>
    intro o ho
    have hmem : ⟨o.node, o.typeName, none⟩ ∈ o.entries none := by
      rw [Outline.entries_eq]
      exact List.mem_cons_self
    obtain ⟨v,hv,-,-,hparent⟩ := hvalue (List.mem_flatMap.mpr ⟨o,Option.mem_toList.mpr ho,hmem⟩)
    exact ⟨v,hv,hparent⟩
  case owner =>
    intro c hc
    obtain ⟨o,ho,hc⟩ := List.mem_flatMap.mp hc
    obtain rfl | ⟨x,hx,hc⟩ := Outline.eq_or_mem_owned hc
    · exact .inl (Option.mem_toList.mp ho)
    · exact .inr ⟨x,List.mem_flatMap.mpr ⟨o,ho,hx⟩,hc⟩
  case parent =>
    intro x hx c hc
    obtain ⟨o,ho,hx⟩ := List.mem_flatMap.mp hx
    obtain ⟨⟨owner,hself⟩,howned⟩ := Outline.mem_entries none hx
    obtain ⟨v,hv,-,-,hparent⟩ := hvalue (List.mem_flatMap.mpr ⟨o,ho,howned c hc⟩)
    obtain ⟨w,hw,-⟩ := hvalue (List.mem_flatMap.mpr ⟨o,ho,hself⟩)
    obtain ⟨i,hi,-⟩ := Option.bind_eq_some_iff.mp hw
    refine ⟨v,i,hv,?_,hi⟩
    rw [hparent]
    exact hi

/-- Objects in all places where objects can be, the last of them without its closing brace. -/
theorem indexes_agree_everywhere : ∃ p,
    parse? .qml "A\x7bB\x7b\x7d b:C\x7b\x7d g\x7bd:1\x7d D on x\x7b\x7d l:[E\x7b\x7d,F\x7b\x7d] property G p:G\x7b" = some p ∧
    (SymbolTables.ofRoot p.root).objects.size = 8 ∧
    Agreement (SymbolTables.ofRoot p.root) (Ranges.ofRoot p.root) p.root.outline? := by
  have h : (parse? .qml
      "A\x7bB\x7b\x7d b:C\x7b\x7d g\x7bd:1\x7d D on x\x7b\x7d l:[E\x7b\x7d,F\x7b\x7d] property G p:G\x7b").any
      fun p => (SymbolTables.ofRoot p.root).objects.size = 8 := by
    decide +kernel
  obtain ⟨p,hp,hsize⟩ := (Option.any_eq_true _ _).mp h
  exact ⟨p,hp,of_decide_eq_true hsize,indexes_agree hp⟩

end QmlCodeModel
