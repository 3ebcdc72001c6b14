import Mathlib.Data.List.Nodup
import QmlCodeModel.OpenDocument
import QmlCodeModel.Proofs.Symbols.Agreement

/-! The object that an editor is told to be around an offset. It is looked up by the innermost range of any kind,
but only ranges of objects have one: in brackets, a block or a function that stand further inside there is none. -/
namespace QmlCodeModel

namespace Node

variable {n : Node} {r : Range}

lemma node_of_range? (h : n.range? = some r) : r.node = n.id := by
  unfold range? at h
  split at h
  case h_4 =>
    split at h <;> cases h
    rfl
  all_goals
    cases h
    try rfl

/-- Every range has a node of its own. -/
lemma sublist_rangeTrees (n : Node) :
    ((Ranges.toList ⟨n.rangeTrees⟩).map Range.node).Sublist (n.walk.map Node.id) := by
  induction n using Node.walk.induct with
  | case1 n ih =>
    have hinner : ((Ranges.toList ⟨n.innerTrees⟩).map Range.node).Sublist
        ((n.children.flatMap walk).map Node.id) := by
      unfold innerTrees Ranges.toList
      rw [List.flatMap_assoc,List.map_flatMap,List.map_flatMap]
      exact List.Sublist.flatMap_right _ ih
    rw [walk_eq,List.map_cons,rangeTrees_eq]
    cases hr : n.range? with
    | none => exact hinner.cons _
    | some r =>
      rw [Ranges.toList_singleton,List.map_cons,node_of_range? hr]
      exact hinner.cons_cons _

end Node

namespace Ranges

variable {rs : Ranges} {r closest : Range} {offset : Nat}

/-- The innermost range of an object around an offset. -/
def owner? (rs : Ranges) (offset : Nat) : Option Range :=
  ((rs.path offset).filter (·.kind.isObject)).getLast?

/-- Around an offset where there is an object, there is an innermost range. -/
lemma exists_closest (h : rs.owner? offset = some r) : ∃ c, rs.closest? offset = some c := by
  refine Option.ne_none_iff_exists'.mp fun hnone => ?_
  unfold closest? at hnone
  unfold owner? at h
  rw [List.getLast?_eq_none_iff.mp hnone] at h
  cases h

/-- The innermost range belongs to an object exactly if it is the innermost one of an object. -/
lemma isObject_closest_iff (h : rs.owner? offset = some r) (hclosest : rs.closest? offset = some closest) :
    closest.kind.isObject ↔ closest = r := by
  unfold closest? at hclosest
  unfold owner? at h
  obtain ⟨before,hpath⟩ := List.getLast?_eq_some_iff.mp hclosest
  rw [hpath,List.filter_append] at h
  constructor
  · intro hobject
    rw [List.filter_cons,if_pos hobject,List.filter_nil,List.getLast?_concat] at h
    exact Option.some.inj h
  · rintro rfl
    have hmem := List.mem_of_getLast? h
    rw [← List.filter_append] at hmem
    exact (List.mem_filter.mp hmem).2

end Ranges

/-- A node with a number among the objects is the node of the object of that number. -/
lemma SymbolTables.value_of_objectOf? {t : SymbolTables} {node i : Nat} (h : t.objectOf? node = some i) :
    ∃ v, t.objects[i]? = some v ∧ v.node = node := by
  unfold objectOf? at h
  obtain ⟨hlt,hnode,-⟩ := List.findIdx?_eq_some_iff_getElem.mp h
  refine ⟨t.objects.toList[i],?_,beq_iff_eq.mp hnode⟩
  rw [← Array.getElem?_toList]
  exact List.getElem?_eq_getElem hlt

/-- The node of a range is an object exactly if the range is one of an object. -/
lemma isSome_objectOf?_iff {source : String} {p : Parse} (h : parse? .qml source = some p) {r : Range}
    (hr : r ∈ (Ranges.ofRoot p.root).toList) :
    ((SymbolTables.ofRoot p.root).objectOf? r.node).isSome ↔ r.kind.isObject := by
  have hagree := indexes_agree h
  have hranged : ((SymbolTables.ofRoot p.root).objectOf? r.node).isSome ↔
      r.node ∈ (Ranges.ofRoot p.root).objectNodes := by
    rw [hagree.ranged]
    constructor
    · intro hsome
      obtain ⟨i,hi⟩ := Option.isSome_iff_exists.mp hsome
      obtain ⟨v,hv,-⟩ := SymbolTables.value_of_objectOf? hi
      simp [SymbolTables.valueOf?,hi,hv]
    · exact Option.isSome_of_isSome_bind
  rw [hranged]
  constructor
  · intro hmem
    obtain ⟨q,hq,hnode⟩ := List.mem_map.mp hmem
    obtain ⟨hq,hobject⟩ := List.mem_filter.mp hq
    have hdistinct := (Node.sublist_rangeTrees p.root).nodup (Grammar.nodup_of_parse? h)
    obtain rfl := List.inj_on_of_nodup_map hdistinct hq hr hnode
    exact hobject
  · intro hobject
    exact List.mem_map_of_mem (List.mem_filter.mpr ⟨hr,hobject⟩)

/-- What the symbols of a reading are made from. -/
lemma Reading.parts_of? {form : SourceForm} {directory : Path} {source : String} {reading : Reading}
    (h : of? form directory source = some reading) : parse? form source = some reading.parse ∧
      reading.symbols.tables = SymbolTables.ofRoot reading.parse.root := by
  obtain ⟨p,hp,hreading⟩ := Option.bind_eq_some_iff.mp h
  cases hreading
  exact ⟨hp,rfl⟩

namespace OpenDocument

variable {d : OpenDocument} {directory : Path} {source : String} {reading : Reading} {offset : Nat}
  {r closest : Range}

lemma valueAt_of_closest (hd : d.document.reading = some reading)
    (hclosest : d.ranges.closest? offset = some closest) : d.valueAt offset =
      (d.reference (reading.symbols.tables.objectOf? closest.node),some closest) := by
  simp [valueAt,valueIn,hclosest,Document.symbols?,hd]

/-- Where there is an object around an offset of a document, the innermost range of an object has one. An editor
is told that object exactly if no range of any other kind stands further inside. If one does, it is told of no
object. -/
theorem valueAt_eq_owner_iff (h : Reading.of? .qml directory source = some reading)
    (hd : d.document.reading = some reading) (hr : d.ranges.owner? offset = some r) :
    ∃ i v closest, reading.symbols.tables.objectOf? r.node = some i ∧
      reading.symbols.tables.objects[i]? = some v ∧ v.node = r.node ∧
      d.ranges.closest? offset = some closest ∧ (d.valueAt offset).2 = some closest ∧
      ((d.valueAt offset).1 = d.reference (some i) ↔ closest = r) ∧
      (closest ≠ r → (d.valueAt offset).1.isNull) := by
  obtain ⟨hp,htables⟩ := Reading.parts_of? h
  have hranges : d.ranges = Ranges.ofRoot reading.parse.root := by
    rw [ranges,hd]
    rfl
  have hmem {c : Range} (hc : c ∈ d.ranges.path offset) : c ∈ (Ranges.ofRoot reading.parse.root).toList := by
    rw [hranges,(Ranges.path_eq_filter hp offset).1] at hc
    exact (List.mem_filter.mp hc).1
  obtain ⟨hpath,hobject⟩ := List.mem_filter.mp (List.mem_of_getLast? hr)
  obtain ⟨closest,hclosest⟩ := Ranges.exists_closest hr
  have hisObject := Ranges.isObject_closest_iff hr hclosest
  have hsome := isSome_objectOf?_iff hp (hmem (List.mem_of_getLast? hclosest))
  rw [← htables,hisObject] at hsome
  obtain ⟨i,hi⟩ := Option.isSome_iff_exists.mp ((isSome_objectOf?_iff hp (hmem hpath)).mpr hobject)
  rw [← htables] at hi
  obtain ⟨v,hv,hnode⟩ := SymbolTables.value_of_objectOf? hi
  refine ⟨i,v,closest,hi,hv,hnode,hclosest,?_,⟨fun hvalue => ?_,?_⟩,fun hne => ?_⟩
  · rw [valueAt_of_closest hd hclosest]
  · rw [valueAt_of_closest hd hclosest] at hvalue
    exact hsome.mp (by simp [(ValueReference.mk.inj hvalue).2])
  · rintro rfl
    rw [valueAt_of_closest hd hclosest,hi]
  · rw [valueAt_of_closest hd hclosest]
    simpa [ValueReference.isNull,reference] using mt hsome.mp hne

/-- An object with a block and with an object of its own, as it is read in an editor. -/
def opened : OpenDocument :=
  ⟨((Document.edited ⟨"/"⟩ ⟨"a.qml"⟩).setSource "A\x7bb:\x7bc\x7dC\x7b\x7d\x7d").read,1⟩

/-- In the braces of the inner object an editor is told that one. -/
theorem valueAt_eq_owner_in_object : ∃ reading r,
    Reading.of? .qml ⟨"/"⟩ "A\x7bb:\x7bc\x7dC\x7b\x7d\x7d" = some reading ∧
    opened.document.reading = some reading ∧ opened.ranges.owner? 9 = some r ∧ (opened.valueAt 9).2 = some r ∧
    ∃ i v, reading.symbols.tables.objects[i]? = some v ∧ v.node = r.node ∧
      (opened.valueAt 9).1 = opened.reference (some i) := by
  have hread : opened.document.reading.isSome := by decide +kernel
  have howner : (opened.ranges.owner? 9).any fun r => opened.ranges.closest? 9 = some r := by decide +kernel
  obtain ⟨reading,hd⟩ := Option.isSome_iff_exists.mp hread
  obtain ⟨r,hr,hsame⟩ := (Option.any_eq_true _ _).mp howner
  obtain ⟨i,v,closest,-,hv,hnode,hclosest,hrange,hiff,-⟩ := valueAt_eq_owner_iff (by exact hd) hd hr
  obtain rfl := Option.some.inj (hclosest.symm.trans (of_decide_eq_true hsame))
  exact ⟨reading,closest,hd,hd,hr,hrange,i,v,hv,hnode,hiff.mpr rfl⟩

/-- In the block an editor is told of none, although the outer object is around it. -/
theorem valueAt_null_in_block : ∃ r i, opened.ranges.owner? 5 = some r ∧
    (opened.document.symbols?.bind fun s => s.tables.objectOf? r.node) = some i ∧
    (opened.valueAt 5).1 ≠ opened.reference (some i) ∧ (opened.valueAt 5).1.isNull := by
  have howner : (opened.ranges.owner? 5).any fun r =>
      (opened.document.symbols?.bind fun s => s.tables.objectOf? r.node) = some 0 := by decide +kernel
  obtain ⟨r,hr,hi⟩ := (Option.any_eq_true _ _).mp howner
  exact ⟨r,0,hr,of_decide_eq_true hi,by decide +kernel,by decide +kernel⟩

end OpenDocument

end QmlCodeModel
