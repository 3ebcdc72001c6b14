import QmlCodeModel.Proofs.Live.Traversal

/-! What is read through a path after a value was written through it. An element of a list keeps its place, and a
whole property takes any value; but whether a path is connected to an element is asked anew each time. -/
namespace QmlCodeModel

namespace LiveGraph

variable {g g' : LiveGraph} {t : LiveTarget} {value stored : LiveValue}

/-- The list that a target is an element of, with the place in it. A target with an index is none where its
property holds no list. -/
def elementOf? (g : LiveGraph) (t : LiveTarget) : Option (Nat × List Nat) :=
  match t.index,g.read? t.object t.property with
  | some i,some (.list items) => some (i,items)
  | _,_ => none

lemma elementOf?_eq_some_iff {i : Nat} {items : List Nat} : g.elementOf? t = some (i,items) ↔
    t.index = some i ∧ g.read? t.object t.property = some (.list items) := by
  unfold elementOf?
  split
  · rename_i hindex hread
    simp [hindex,hread]
  · rename_i hno
    exact ⟨nofun,fun ⟨hindex,hread⟩ => (hno i items hindex hread).elim⟩

/-- What a property gets when a value is written at a target: the list that it holds with an object in place of an
element, or else the value itself. -/
inductive Puts (g : LiveGraph) (t : LiveTarget) : LiveValue → LiveValue → Prop
  | element {i number : Nat} {items : List Nat} (helement : g.elementOf? t = some (i,items))
    (hlt : i < items.length) : Puts g t (.object (some number)) (.list (items.set i number))
  | whole {value : LiveValue} (hhas : g.hasProperty t.object t.property = true)
    (helement : g.elementOf? t = none) : Puts g t value value

/-- A list comes to a property with an index that has held something else. -/
def Relists (g : LiveGraph) (t : LiveTarget) (value : LiveValue) : Prop :=
  t.index.isSome ∧ g.elementOf? t = none ∧ ∃ items, value = .list items

/-- Only the property of a target has another value. If the target is an element of a list, then the list has kept
its length and its other elements. -/
structure WrittenAt (g g' : LiveGraph) (t : LiveTarget) : Prop where
  assigned : ∃ stored, g.Assigned g' t.object t.property stored
  elements : ∀ i items, t.index = some i → g.read? t.object t.property = some (.list items) →
    ∃ items', g'.read? t.object t.property = some (.list items') ∧ items'.length = items.length ∧
      ∀ j, j ≠ i → items'[j]? = items[j]?

lemma Assigned.read?_self (h : g.Assigned g' t.object t.property stored) :
    g'.read? t.object t.property = some stored :=
  (h.values t.object t.property).trans (if_pos ⟨rfl,rfl⟩)

lemma Puts.writtenAt (h : g.Puts t value stored) (hassigned : g.Assigned g' t.object t.property stored) :
    g.WrittenAt g' t := by
  refine ⟨⟨stored,hassigned⟩,fun i items hindex hread => ?_⟩
  have helement := elementOf?_eq_some_iff.mpr ⟨hindex,hread⟩
  cases h with
  | element helement' hlt =>
    obtain ⟨rfl,rfl⟩ := Prod.mk.inj (Option.some.inj (helement'.symm.trans helement))
    refine ⟨_,hassigned.read?_self,List.length_set,fun j hj => ?_⟩
    rw [List.getElem?_set,if_neg (Ne.symm hj)]
  | whole _ hnone => cases hnone.symm.trans helement

end LiveGraph

namespace LivePath

open LiveGraph

variable {p : LivePath} {g g' : LiveGraph} {c : Connection} {value stored : LiveValue}

lemma read?_eq (hconnection : p.connection? g = some c) : p.read? g =
    match g.elementOf? c.target with
    | some (i,items) => items[i]?.map fun number => .object (some number)
    | none => g.read? c.target.object c.target.property := by
  rw [read?,hconnection,elementOf?]
  cases hread : g.read? c.target.object c.target.property with
  | none => cases c.target.index <;> simp [hread]
  | some stored => cases hindex : c.target.index <;> cases stored <;> simp [hindex,hread]

lemma write?_eq (hconnection : p.connection? g = some c) (value : LiveValue) : p.write? g value =
    match g.elementOf? c.target with
    | none => g.write? c.target.object c.target.property value
    | some (i,items) =>
      match value with
      | .object (some number) =>
        if i < items.length then g.write? c.target.object c.target.property (.list (items.set i number))
        else some ⟨false,g,[]⟩
      | _ => some ⟨false,g,[]⟩ := by
  rw [write?,hconnection,elementOf?]
  dsimp only
  cases hindex : c.target.index with
  | none => rfl
  | some i =>
    cases hread : g.read? c.target.object c.target.property with
    | none => rfl
    | some stored => cases stored <;> rfl

/-- A write through a path puts the value where the path is connected to, or does nothing. -/
lemma write?_cases (hconnection : p.connection? g = some c)
    (hforward : ∀ o ∈ g.observersOf c.target.object c.target.property, o.forward = none) (value : LiveValue) :
    (∃ stored g' calls, g.Puts c.target value stored ∧
      g.Assigned g' c.target.object c.target.property stored ∧ p.write? g value = some ⟨true,g',calls⟩) ∨
    ((∀ stored, ¬g.Puts c.target value stored) ∧ p.write? g value = some ⟨false,g,[]⟩) := by
  rw [write?_eq hconnection]
  cases helement : g.elementOf? c.target with
  | none =>
    obtain ⟨hhas,g',hassigned,hwrite⟩ | ⟨hhas,hwrite⟩ := @write?_of_forward g _ _ value hforward
    · exact .inl ⟨value,g',_,.whole hhas helement,hassigned,hwrite⟩
    · refine .inr ⟨fun stored hputs => ?_,hwrite⟩
      cases hputs with
      | element helement' => cases helement.symm.trans helement'
      | whole hhas' => exact Bool.false_ne_true (hhas.symm.trans hhas')
  | some element =>
    obtain ⟨i,items⟩ := element
    have hrefused (h : ∀ number, value = .object (some number) → ¬i < items.length) :
        ∀ stored, ¬g.Puts c.target value stored := by
      rintro stored (⟨helement',hlt⟩ | ⟨-,helement'⟩)
      · obtain ⟨rfl,rfl⟩ := Prod.mk.inj (Option.some.inj (helement'.symm.trans helement))
        exact h _ rfl hlt
      · cases helement.symm.trans helement'
    dsimp only
    split
    · rename_i number
      split
      · rename_i hlt
        obtain ⟨-,g',hassigned,hwrite⟩ | ⟨hhas,-⟩ :=
          @write?_of_forward g _ _ (.list (items.set i number)) hforward
        · exact .inl ⟨_,g',_,.element helement hlt,hassigned,hwrite⟩
        · rw [hasProperty,(elementOf?_eq_some_iff.mp helement).2] at hhas
          cases hhas
      · rename_i hlt
        exact .inr ⟨hrefused fun _ _ => hlt,rfl⟩
    · rename_i hno
      exact .inr ⟨hrefused fun number hnumber => (hno number hnumber).elim,rfl⟩

/-- What is put is read back, unless it is a list and the index is now taken for one of its elements. -/
lemma read?_of_puts (hputs : g.Puts c.target value stored) (hconnection : p.connection? g' = some c)
    (hassigned : g.Assigned g' c.target.object c.target.property stored) :
    p.read? g' = some value ↔ ¬g.Relists c.target value := by
  rw [read?_eq hconnection]
  cases hputs with
  | @element i number items helement hlt =>
    have hindex := (elementOf?_eq_some_iff.mp helement).1
    rw [elementOf?_eq_some_iff.mpr ⟨hindex,hassigned.read?_self⟩]
    dsimp only
    rw [List.getElem?_set_self hlt]
    exact iff_of_true rfl fun hrelists => by cases helement.symm.trans hrelists.2.1
  | whole hhas helement =>
    cases helement' : g'.elementOf? c.target with
    | none =>
      refine iff_of_true hassigned.read?_self ?_
      rintro ⟨hsome,-,items,rfl⟩
      obtain ⟨i,hindex⟩ := Option.isSome_iff_exists.mp hsome
      cases helement'.symm.trans (elementOf?_eq_some_iff.mpr ⟨hindex,hassigned.read?_self⟩)
    | some element =>
      obtain ⟨hindex,hread⟩ := elementOf?_eq_some_iff.mp helement'
      obtain rfl := Option.some.inj (hassigned.read?_self.symm.trans hread)
      refine iff_of_false (fun hread => ?_) fun hno => hno ⟨hindex ▸ rfl,helement,_,rfl⟩
      obtain ⟨number,-,hobject⟩ := Option.map_eq_some_iff.mp hread
      cases hobject

/-- A write through a path whose observers do not write on. It is accepted exactly if the value can be put where
the path is connected to; then nothing else changes, and the value is read back unless it is a list that has come
where an index is. A write that is refused has no effect. -/
theorem read?_write?_iff (hconnection : p.connection? g = some c)
    (hforward : ∀ o ∈ g.observersOf c.target.object c.target.property, o.forward = none) (value : LiveValue) :
    ∃ w, p.write? g value = some w ∧
      (w.accepted = true ↔ ∃ stored, g.Puts c.target value stored) ∧
      (w.accepted = true → g.WrittenAt w.graph c.target ∧ p.connection? w.graph = some c ∧
        (p.read? w.graph = some value ↔ ¬g.Relists c.target value)) ∧
      (w.accepted = false → w.graph = g ∧ w.calls = []) := by
  obtain ⟨stored,g',calls,hputs,hassigned,hwrite⟩ | ⟨hno,hwrite⟩ := write?_cases hconnection hforward value
  · have hconnection' : p.connection? g' = some c := by rwa [connection?,hassigned.same.connections]
    refine ⟨_,hwrite,⟨fun _ => ⟨stored,hputs⟩,fun _ => rfl⟩,fun _ => ⟨hputs.writtenAt hassigned,hconnection',?_⟩,
      nofun⟩
    exact read?_of_puts hputs hconnection' hassigned
  · exact ⟨_,hwrite,⟨nofun,fun ⟨stored,hputs⟩ => (hno stored hputs).elim⟩,nofun,fun _ => ⟨rfl,rfl⟩⟩

/-- A path to a place of a property, followed in a graph of two objects and a third that has the property. -/
def followed (i : Nat) (value : LiveValue) : LivePath × LiveGraph :=
  LivePath.traverse { steps := [.property "data" "A",.index i] } {
    objects := [
      { typeName := "B", values := ⟨[],List.nodup_nil⟩, listeners := ⟨[],List.nodup_nil⟩ },
      { typeName := "C", values := ⟨[],List.nodup_nil⟩, listeners := ⟨[],List.nodup_nil⟩ },
      { typeName := "A", values := ⟨[("data",value)],List.nodup_singleton "data"⟩,
        listeners := ⟨[],List.nodup_nil⟩ }]
    connections := ⟨[],List.nodup_nil⟩ } 2

/-- The second place of a list gets another object. -/
theorem read?_write?_element :
    (followed 1 (.list [0,1])).1.connection? (followed 1 (.list [0,1])).2 = some ⟨⟨2,"data",some 1⟩,some 0,[]⟩ ∧
    (followed 1 (.list [0,1])).2.observersOf 2 "data" = [] ∧
    ∃ w, (followed 1 (.list [0,1])).1.write? (followed 1 (.list [0,1])).2 (.object (some 0)) = some w ∧
      w.accepted = true ∧ (followed 1 (.list [0,1])).2.WrittenAt w.graph ⟨2,"data",some 1⟩ ∧
      (followed 1 (.list [0,1])).1.read? w.graph = some (.object (some 0)) := by
  have hconnection : (followed 1 (.list [0,1])).1.connection? (followed 1 (.list [0,1])).2 =
    some ⟨⟨2,"data",some 1⟩,some 0,[]⟩ := by decide +kernel
  have hobservers : (followed 1 (.list [0,1])).2.observersOf 2 "data" = [] := by decide +kernel
  have helement : (followed 1 (.list [0,1])).2.elementOf? ⟨2,"data",some 1⟩ = some (1,[0,1]) := by decide +kernel
  obtain ⟨w,hwrite,hiff,haccepted,-⟩ := read?_write?_iff hconnection (by simp [hobservers]) (.object (some 0))
  have hyes := hiff.mpr ⟨_,.element helement (by decide)⟩
  obtain ⟨hwritten,-,hread⟩ := haccepted hyes
  refine ⟨hconnection,hobservers,w,hwrite,hyes,hwritten,hread.mpr fun hrelists => ?_⟩
  cases helement.symm.trans hrelists.2.1

/-- The property holds one object, and a list is written where it is. The first object of the list is read. -/
theorem read?_write?_list :
    (followed 0 (.object (some 0))).1.connection? (followed 0 (.object (some 0))).2 =
      some ⟨⟨2,"data",some 0⟩,some 0,[]⟩ ∧
    ∃ w, (followed 0 (.object (some 0))).1.write? (followed 0 (.object (some 0))).2 (.list [1]) = some w ∧
      w.accepted = true ∧ (followed 0 (.object (some 0))).1.read? w.graph = some (.object (some 1)) ∧
      (followed 0 (.object (some 0))).1.read? w.graph ≠ some (.list [1]) := by
  refine ⟨by decide +kernel,?_⟩
  have hwritten : (((followed 0 (.object (some 0))).1.write? (followed 0 (.object (some 0))).2 (.list [1])).any
    fun w => w.accepted && (followed 0 (.object (some 0))).1.read? w.graph = some (.object (some 1))) = true := by
      decide +kernel
  obtain ⟨w,hwrite,hw⟩ := (Option.any_eq_true _ _).mp hwritten
  obtain ⟨haccepted,hread⟩ := Bool.and_eq_true_iff.mp hw
  have hread := of_decide_eq_true hread
  exact ⟨w,hwrite,haccepted,hread,fun hlist => by cases hread.symm.trans hlist⟩

end LivePath
end QmlCodeModel
