import QmlCodeModel.Outline.Path
import QmlCodeModel.Proofs.Grammar.Source
import QmlCodeModel.Proofs.Outline.Layout

/-! What is found in an outline. In one that is laid out, the path to a property is found from the offset where
it starts. -/
namespace QmlCodeModel

/-- A turn on the way from an object to one inside it: to the value of a property, to an element of the
list that is its value, or to one of the objects without a name. -/
inductive Turn
  | value (p : OutlineProperty Outline)
  | element (p : OutlineProperty Outline) (i : Nat)
  | child (i : Nat)

/-- The steps of a path that a turn makes. -/
def Turn.steps : Turn → List PathStep
  | .value p => nameSteps p.name p.ownerType
  | .element p i => nameSteps p.name p.ownerType ++ [.index i]
  | .child i => [.index i]

/-- Turns lead from an object to one at some depth in it. -/
inductive Leads : Outline → List Turn → Outline → Prop
  | here (o : Outline) : Leads o [] o
  | value {o c inner : Outline} {p : OutlineProperty Outline} {turns : List Turn} (hp : p ∈ o.properties)
    (hc : p.child = some c) (typed : c.typeName ≠ "") (h : Leads c turns inner) :
    Leads o (.value p :: turns) inner
  | element {o list c inner : Outline} {p : OutlineProperty Outline} {i : Nat} {turns : List Turn}
    (hp : p ∈ o.properties) (hlist : p.child = some list) (untyped : list.typeName = "")
    (hc : list.children[i]? = some c) (h : Leads c turns inner) : Leads o (.element p i :: turns) inner
  | child {o c inner : Outline} {i : Nat} {turns : List Turn} (hc : o.children[i]? = some c)
    (h : Leads c turns inner) : Leads o (.child i :: turns) inner

namespace Outline

variable {o c inner : Outline} {p : OutlineProperty Outline} {d : DeclaredProperty} {i : Nat}

/-- What the first property that is looked at decides. -/
lemma find?_of_property (hp : o.properties.find? (concerns d.position) = some p) :
    o.find? d = if p.start == d.position then foundProperty d p
      else p.child.bind fun c => (c.find? d).map (Found.below (nameSteps p.name p.ownerType)) := by
  rw [find?]
  split
  · rename_i q hq
    obtain rfl := Option.some.inj (hp.symm.trans hq)
    congr 1
    split <;> rename_i hc <;> rw [hc] <;> rfl
  · rename_i hnone
    rw [hp] at hnone
    cases hnone

/-- What the first object decides if no property is looked at. -/
lemma find?_of_child (hp : o.properties.find? (concerns d.position) = none)
    (hz : (o.children.zipIdx.find? fun part => part.1.spans d.position) = some (c,i)) : o.find? d =
      if c.span.start == d.position then some ⟨[.index i], 0, c.span.stop - c.span.start⟩
      else (c.find? d).map (Found.below [.index i]) := by
  rw [find?]
  split
  · rename_i q hq
    rw [hp] at hq
    cases hq
  · split
    · rename_i c' i' hz'
      obtain ⟨rfl,rfl⟩ := Prod.mk.inj (Option.some.inj (hz.symm.trans hz'))
      rfl
    · rename_i hnone
      rw [hz] at hnone
      cases hnone

/-- The first property that an offset concerns is the one that it lies in or starts. -/
lemma find?_concerns (h : o.Laid) (hp : p ∈ o.properties) (hconcerns : concerns d.position p)
    (hstart : p.start ≤ d.position) : o.properties.find? (concerns d.position) = some p := by
  obtain ⟨-,apart⟩ := h
  obtain ⟨before,after,hproperties⟩ := List.append_of_mem hp
  refine List.find?_eq_some_iff_append.mpr ⟨hconcerns,before,after,hproperties,fun q hq => ?_⟩
  rw [hproperties] at apart
  obtain ⟨hlt,hstop⟩ := (List.pairwise_append.mp apart).2.2 q hq p List.mem_cons_self
  simp only [concerns,Bool.not_eq_true',Bool.or_eq_false_iff,beq_eq_false_iff_ne,ne_eq,
    Bool.and_eq_false_iff,decide_eq_false_iff_not]
  refine ⟨by omega,?_⟩
  cases hchild : q.child.isSome with
  | false => exact .inl (.inl rfl)
  | true =>
    have := hstop hchild
    exact .inr (by omega)

/-- What starts in the value of a property is found there. -/
lemma find?_value (h : o.Laid) (hp : p ∈ o.properties) (hc : p.child = some c)
    (hstart : p.start < d.position) (hstop : d.position < c.span.stop) :
    o.find? d = (c.find? d).map (Found.below (nameSteps p.name p.ownerType)) := by
  obtain ⟨-,hafter⟩ : p.start ≤ c.span.start ∧ c.span.stop ≤ p.stop := by
    obtain ⟨-,-,-,-,-,-,around⟩ := h
    exact around p hp c hc
  have hconcerns : concerns d.position p := by
    simp only [concerns,hc,Option.isSome_some,Bool.true_and,Bool.or_eq_true,Bool.and_eq_true,
      decide_eq_true_eq]
    exact .inr ⟨hstart,by omega⟩
  have hfind := find?_concerns h hp hconcerns (Nat.le_of_lt hstart)
  have hne : ¬(p.start == d.position) := by simpa using Nat.ne_of_lt hstart
  rw [find?_of_property hfind,if_neg hne,hc,Option.bind_some]

/-- Where an object without a name stands, no property is looked at and no object before it. -/
lemma find?_spans (h : o.Laid) (hc : o.children[i]? = some c) (hstart : c.span.start ≤ d.position)
    (hstop : d.position < c.span.stop) : o.properties.find? (concerns d.position) = none ∧
      (o.children.zipIdx.find? fun part => part.1.spans d.position) = some (c,i) := by
  obtain ⟨-,-,siblings,mixed,-,-,-,-,-,-,-,-,solid⟩ := h
  constructor
  · refine List.find?_eq_none.mpr fun p hp hconcerns => ?_
    simp only [concerns,Bool.or_eq_true,beq_iff_eq,Bool.and_eq_true,decide_eq_true_eq] at hconcerns
    obtain ⟨hlt,hends⟩ | hafter := mixed p hp c (List.mem_of_getElem? hc)
    · obtain heq | ⟨⟨hchild,-⟩,hstop⟩ := hconcerns
      · omega
      · have := hends hchild
        omega
    · omega
  · obtain ⟨hi,hget⟩ := List.getElem?_eq_some_iff.mp hc
    refine List.find?_eq_some_iff_getElem.mpr ⟨?_,i,by simpa using hi,?_,fun j hj => ?_⟩
    · simp only [spans,Bool.and_eq_true,decide_eq_true_eq,Bool.or_eq_true,beq_iff_eq]
      exact ⟨hstart,.inr hstop⟩
    · simp [hget]
    · have hle : o.children[j].span.stop ≤ c.span.start := by
        rw [← hget]
        exact List.pairwise_iff_getElem.mp siblings j i (by omega) hi hj
      have hspan := solid o.children[j] (List.getElem_mem _)
      simp only [List.getElem_zipIdx,spans,Bool.not_eq_true',Bool.and_eq_false_iff,
        decide_eq_false_iff_not,Bool.or_eq_false_iff,beq_eq_false_iff_ne,ne_eq]
      exact .inr ⟨by omega,by omega⟩

/-- An object without a name is found where it starts, and in it what starts behind that. -/
lemma find?_child (h : o.Laid) (hc : o.children[i]? = some c) (hstart : c.span.start ≤ d.position)
    (hstop : d.position < c.span.stop) : o.find? d =
      if c.span.start = d.position then some ⟨[.index i], 0, c.span.stop - c.span.start⟩
      else (c.find? d).map (Found.below [.index i]) := by
  obtain ⟨hnone,hfind⟩ := find?_spans h hc hstart hstop
  rw [find?_of_child hnone hfind]
  simp only [beq_iff_eq]

/-- A property is found where it starts. -/
lemma find?_property (h : o.Laid) (hp : p ∈ o.properties) (hposition : d.position = p.start) :
    o.find? d = foundProperty d p := by
  have hfind := find?_concerns h hp (by simp [concerns,hposition]) (Nat.le_of_eq hposition.symm)
  rw [find?_of_property hfind,if_pos (by simp [hposition])]

lemma foundProperty_of_ne_nil (hchain : d.chain ≠ []) : foundProperty d p = some ⟨nameSteps d.chain p.ownerType,
    (p.valueStart : Int) - p.start - d.nameSize, p.stop - p.valueStart⟩ :=
  if_neg (by simpa using hchain)

/-- What lies in a part of an outline lies in the outline. -/
lemma Laid.value (h : o.Laid) (hp : p ∈ o.properties) (hc : p.child = some c) :
    c.Laid ∧ o.span.start < p.start ∧ p.start ≤ c.span.start ∧ c.span.stop ≤ o.span.stop := by
  obtain ⟨-,-,-,-,marks,-,around,-,-,-,values⟩ := h
  obtain ⟨hstart,-,hstop⟩ := marks p hp
  obtain ⟨hbefore,hafter⟩ := around p hp c hc
  exact ⟨values p hp c hc,hstart,hbefore,Nat.le_trans hafter (hstop (by rw [hc]; rfl))⟩

lemma Laid.child (h : o.Laid) (hc : o.children[i]? = some c) :
    c.Laid ∧ o.span.start ≤ c.span.start ∧ c.span.stop ≤ o.span.stop := by
  obtain ⟨-,-,-,-,-,-,-,within,-,-,-,below⟩ := h
  have hmem := List.mem_of_getElem? hc
  exact ⟨below c hmem,within c hmem⟩

/-- The path to a property at any depth is found where the property starts. -/
theorem find?_of_leads {turns : List Turn} (h : o.Laid) (hl : Leads o turns inner)
    (hp : p ∈ inner.properties) (hposition : d.position = p.start) (hchain : d.chain = p.name) :
    o.find? d = some ⟨turns.flatMap Turn.steps ++ nameSteps p.name p.ownerType,
      (p.valueStart : Int) - p.start - d.nameSize, p.stop - p.valueStart⟩ ∧
    o.span.start < d.position ∧ d.position < o.span.stop := by
  induction hl with
  | here o =>
    obtain ⟨-,-,-,-,marks,named⟩ := id h
    have hfind := (find?_property h hp hposition).trans (foundProperty_of_ne_nil (hchain ▸ named p hp))
    rw [hchain] at hfind
    rw [hposition]
    exact ⟨hfind,(marks p hp).1,(marks p hp).2.1⟩
  | @value o c inner q turns hq hc typed hl ih =>
    obtain ⟨hlaid,hopen,hstart,hstop⟩ := h.value hq hc
    obtain ⟨hfind,hfrom,hto⟩ := ih hlaid hp
    refine ⟨?_,by omega,by omega⟩
    rw [find?_value h hq hc (by omega) hto,hfind]
    simp [Found.below,Turn.steps]
  | @element o list c inner q i turns hq hlist untyped hc hl ih =>
    obtain ⟨hlaid,hopen,hstart,hstop⟩ := h.value hq hlist
    obtain ⟨hinner,hbegin,hend⟩ := hlaid.child hc
    obtain ⟨hfind,hfrom,hto⟩ := ih hinner hp
    refine ⟨?_,by omega,by omega⟩
    rw [find?_value h hq hlist (by omega) (by omega),find?_child hlaid hc (Nat.le_of_lt hfrom) hto,
      if_neg (Nat.ne_of_lt hfrom),hfind]
    simp [Found.below,Turn.steps]
  | @child o c inner i turns hc hl ih =>
    obtain ⟨hlaid,hstart,hstop⟩ := h.child hc
    obtain ⟨hfind,hfrom,hto⟩ := ih hlaid hp
    refine ⟨?_,by omega,by omega⟩
    rw [find?_child h hc (Nat.le_of_lt hfrom) hto,if_neg (Nat.ne_of_lt hfrom),hfind]
    simp [Found.below,Turn.steps]

end Outline
end QmlCodeModel

/-! The search for a declaration. It finds what starts at the position if anything does, says how to come there, and
changes nothing of a declaration that it does not find. -/
namespace QmlCodeModel

namespace Outline

/-- What a declaration can be found to be: a property, or an object in a list of objects. -/
inductive Part
  | property (p : OutlineProperty Outline)
  | object (c : Outline)

namespace Part

def start : Part → Nat
  | property p => p.start
  | object c => c.span.start

/-- The steps that end the path to a part. A property has the name by which it was looked for. -/
def steps (d : DeclaredProperty) : Part → List PathStep
  | property p => nameSteps d.chain p.ownerType
  | object _ => []

/-- What a search says about a part that starts at its position. A property needs a name to be found. -/
def found? (d : DeclaredProperty) : Part → Option Found
  | property p => foundProperty d p
  | object c => some ⟨[], 0, c.span.stop - c.span.start⟩

end Part

/-- An outline holds a part at some depth, and these steps lead there: the names of each property around it, and the
number of each object around it in the list that it is in, its own number included. -/
inductive Holds : Outline → List PathStep → Part → Prop
  | property {o : Outline} {p : OutlineProperty Outline} (hp : p ∈ o.properties) : Holds o [] (.property p)
  | object {o c : Outline} {i : Nat} (hc : o.children[i]? = some c) : Holds o [.index i] (.object c)
  | inProperty {o c : Outline} {p : OutlineProperty Outline} {steps : List PathStep} {part : Part}
    (hp : p ∈ o.properties) (hc : p.child = some c) (h : Holds c steps part) :
    Holds o (nameSteps p.name p.ownerType ++ steps) part
  | inObject {o c : Outline} {i : Nat} {steps : List PathStep} {part : Part} (hc : o.children[i]? = some c)
    (h : Holds c steps part) : Holds o (.index i :: steps) part

variable {o c : Outline} {d : DeclaredProperty} {f : Found} {steps : List PathStep} {part : Part}

lemma map_below_below (before steps : List PathStep) (f : Option Found) :
    (f.map (Found.below steps)).map (Found.below before) = f.map (Found.below (before ++ steps)) := by
  cases f <;> simp [Found.below]

/-- What is found is held, and starts at the position. -/
theorem holds_of_find? (h : o.find? d = some f) :
    ∃ steps part, o.Holds steps part ∧ part.start = d.position ∧
      (part.found? d).map (Found.below steps) = some f := by
  fun_induction find? o d generalizing f with
  | case1 o p hp hstart =>
    refine ⟨_,_,.property (List.mem_of_find?_eq_some hp),beq_iff_eq.mp hstart,?_⟩
    rw [Part.found?,h]
    rfl
  | case2 o p hp hstart c hc ih =>
    obtain ⟨f,hf,rfl⟩ := Option.map_eq_some_iff.mp h
    obtain ⟨steps,part,hholds,hposition,hpart⟩ := ih hf
    refine ⟨_,part,.inProperty (List.mem_of_find?_eq_some hp) hc hholds,hposition,?_⟩
    rw [← map_below_below,hpart]
    rfl
  | case3 => cases h
  | case4 o hp c i hz hstart =>
    cases h
    have hc := List.mem_zipIdx_iff_getElem?.mp (List.mem_of_find?_eq_some hz)
    exact ⟨_,_,.object hc,beq_iff_eq.mp hstart,rfl⟩
  | case5 o hp c i hz hstart ih =>
    have hc := List.mem_zipIdx_iff_getElem?.mp (List.mem_of_find?_eq_some hz)
    obtain ⟨f,hf,rfl⟩ := Option.map_eq_some_iff.mp h
    obtain ⟨steps,part,hholds,hposition,hpart⟩ := ih hf
    refine ⟨_,part,.inObject hc hholds,hposition,?_⟩
    rw [← List.singleton_append,← map_below_below,hpart]
    rfl
  | case6 => cases h

/-- What an outline holds starts in it, and behind its start unless it is a list. -/
lemma Laid.start_of_holds (h : o.Laid) (hholds : o.Holds steps part) : o.span.start ≤ part.start ∧
    (o.typeName ≠ "" → o.span.start < part.start) ∧ part.start < o.span.stop := by
  induction hholds with
  | property hp =>
    obtain ⟨-,-,-,-,marks⟩ := h
    obtain ⟨hstart,hstop,-⟩ := marks _ hp
    exact ⟨Nat.le_of_lt hstart,fun _ => hstart,hstop⟩
  | object hc =>
    obtain ⟨-,-,-,-,-,-,-,within,-,-,-,-,solid,behind⟩ := h
    have hmem := List.mem_of_getElem? hc
    obtain ⟨hstart,hstop⟩ := within _ hmem
    exact ⟨hstart,fun htype => behind htype _ hmem,Nat.lt_of_lt_of_le (solid _ hmem) hstop⟩
  | inProperty hp hc hholds ih =>
    obtain ⟨hlaid,hopen,hstart,hstop⟩ := h.value hp hc
    obtain ⟨hfrom,-,hto⟩ := ih hlaid
    exact ⟨by omega,fun _ => by omega,by omega⟩
  | inObject hc hholds ih =>
    obtain ⟨hlaid,hstart,hstop⟩ := h.child hc
    obtain ⟨-,-,-,-,-,-,-,-,typed,-⟩ := h
    obtain ⟨hfrom,hbehind,hto⟩ := ih hlaid
    have := hbehind (typed _ (List.mem_of_getElem? hc))
    exact ⟨by omega,fun _ => by omega,by omega⟩

/-- What is held by the value of a property starts behind the start of the property. -/
lemma Laid.start_lt_of_value {p : OutlineProperty Outline} (h : o.Laid) (hp : p ∈ o.properties)
    (hc : p.child = some c) (hholds : c.Holds steps part) : p.start < part.start := by
  obtain ⟨hlaid,-,hstart,-⟩ := h.value hp hc
  obtain ⟨hfrom,hbehind,-⟩ := hlaid.start_of_holds hholds
  by_cases htype : c.typeName = ""
  · obtain ⟨-,-,-,-,-,-,-,-,-,-,-,-,-,-,lists⟩ := h
    exact Nat.lt_of_lt_of_le (lists p hp c hc htype) hfrom
  · exact Nat.lt_of_le_of_lt hstart (hbehind htype)

/-- What is held is found where it starts. -/
theorem find?_of_holds (h : o.Laid) (hholds : o.Holds steps part) (hposition : part.start = d.position) :
    o.find? d = (part.found? d).map (Found.below steps) := by
  induction hholds with
  | property hp =>
    rw [find?_property h hp hposition.symm,Part.found?]
    cases foundProperty d _ <;> rfl
  | object hc =>
    obtain ⟨-,-,-,-,-,-,-,-,-,-,-,-,solid⟩ := id h
    rw [Part.start] at hposition
    have hlt := solid _ (List.mem_of_getElem? hc)
    rw [find?_child h hc (Nat.le_of_eq hposition) (Nat.lt_of_le_of_lt (Nat.le_of_eq hposition.symm) hlt),
      if_pos hposition]
    rfl
  | inProperty hp hc hholds ih =>
    obtain ⟨hlaid,-⟩ := h.value hp hc
    have hstart := h.start_lt_of_value hp hc hholds
    have hstop := (hlaid.start_of_holds hholds).2.2
    rw [hposition] at hstart hstop
    rw [find?_value h hp hc hstart hstop,ih hlaid hposition,map_below_below]
  | inObject hc hholds ih =>
    obtain ⟨hlaid,-⟩ := h.child hc
    obtain ⟨-,-,-,-,-,-,-,-,typed,-⟩ := id h
    obtain ⟨-,hbehind,hstop⟩ := hlaid.start_of_holds hholds
    have hstart := hbehind (typed _ (List.mem_of_getElem? hc))
    rw [hposition] at hstart hstop
    rw [find?_child h hc (Nat.le_of_lt hstart) hstop,if_neg (Nat.ne_of_lt hstart),ih hlaid hposition,
      map_below_below,List.singleton_append]

/-- The search writes down in the declaration what it finds, and nothing if it finds nothing. -/
theorem search_eq (o : Outline) (d : DeclaredProperty) :
    o.search d = (o.find? d).elim (none,d) fun f => (some f.steps,d.locate f) := by
  fun_induction search o d with
  | case1 o p hp hstart hchain =>
    rw [find?_of_property hp,if_pos hstart,foundProperty,if_pos hchain]
    rfl
  | case2 o p hp hstart hchain =>
    rw [find?_of_property hp,if_pos hstart,foundProperty,if_neg hchain]
    rfl
  | case3 o p hp hstart c hc steps d' hsearch ih =>
    rw [find?_of_property hp,if_neg hstart,hc,Option.bind_some]
    rw [hsearch] at ih
    cases hfound : c.find? d <;> rw [hfound] at ih <;> cases ih <;> rfl
  | case4 o p hp hstart hc =>
    rw [find?_of_property hp,if_neg hstart,hc]
    rfl
  | case5 o hp c i hz hstart =>
    rw [find?_of_child hp hz,if_pos hstart]
    rfl
  | case6 o hp c i hz hstart steps d' hsearch ih =>
    rw [find?_of_child hp hz,if_neg hstart]
    rw [hsearch] at ih
    cases hfound : c.find? d <;> rw [hfound] at ih <;> cases ih <;> rfl
  | case7 o hp hz =>
    rw [find?]
    split
    · rename_i q hq
      rw [hp] at hq
      cases hq
    · split
      · rename_i hsome
        rw [hz] at hsome
        cases hsome
      · rfl

lemma Part.exists_found? (part : Part) (hchain : d.chain ≠ []) : ∃ f, part.found? d = some f := by
  cases part with
  | property p => exact ⟨_,foundProperty_of_ne_nil hchain⟩
  | object c => exact ⟨_,rfl⟩

lemma Part.steps_of_found? (h : part.found? d = some f) : f.steps = part.steps d := by
  cases part with
  | property p =>
    rw [found?,foundProperty,Option.ite_none_left_eq_some] at h
    cases h.2
    rfl
  | object c =>
    cases h
    rfl

/-- What is held is searched for with success where it starts, if it can be found at all. -/
lemma search_of_holds (h : o.Laid) (hholds : o.Holds steps part) (hposition : part.start = d.position)
    (hfound : part.found? d = some f) : o.search d = (some (steps ++ part.steps d),d.locate f) := by
  rw [search_eq,find?_of_holds h hholds hposition,hfound,← Part.steps_of_found? hfound]
  rfl

/-- Whatever the source, with errors or not: a declaration with a name is found exactly if a property or an object in
a list starts at its position, at any depth; the steps lead to whatever starts there; and a declaration that is not
found is left as it was. -/
theorem search_iff_holds {source : String} {r : Parse} (hr : parse? .qml source = some r)
    (ho : r.root.outline? = some o) (hchain : d.chain ≠ []) :
    ((o.search d).1.isSome ↔ ∃ steps part, o.Holds steps part ∧ part.start = d.position) ∧
    (∀ steps part, o.Holds steps part → part.start = d.position →
      (o.search d).1 = some (steps ++ part.steps d)) ∧
    ((o.search d).1 = none → (o.search d).2 = d) := by
  have hlaid := (Grammar.sound_of_parse? hr).outline_laid ho
  have hsteps {steps : List PathStep} {part : Part} (hholds : o.Holds steps part)
      (hposition : part.start = d.position) : (o.search d).1 = some (steps ++ part.steps d) := by
    obtain ⟨f,hfound⟩ := part.exists_found? hchain
    rw [search_of_holds hlaid hholds hposition hfound]
  refine ⟨⟨fun hsome => ?_,fun ⟨steps,part,hholds,hposition⟩ => ?_⟩,fun _ _ => hsteps,fun hnone => ?_⟩
  · rw [search_eq] at hsome
    cases hfind : o.find? d with
    | none =>
      rw [hfind] at hsome
      cases hsome
    | some f =>
      obtain ⟨steps,part,hholds,hposition,-⟩ := holds_of_find? hfind
      exact ⟨steps,part,hholds,hposition⟩
  · rw [hsteps hholds hposition]
    rfl
  · rw [search_eq] at hnone ⊢
    cases hfind : o.find? d with
    | none => rfl
    | some f =>
      rw [hfind] at hnone
      cases hnone

/-- An object that is not closed, in which the value of a property is not closed either. -/
def openSource : String := "A\x7bb:B\x7bc:2;C\x7bc:1"

/-- An object is found in the value that is not closed, and nothing behind its first letter. -/
theorem search_iff_holds_open : ∃ r o, parse? .qml openSource = some r ∧ r.root.outline? = some o ∧
    (∃ steps part, o.Holds steps part ∧ part.start = 10 ∧
      steps ++ part.steps (.ofChain ["c"] 10) = [.property "b" "A",.index 0]) ∧
    ¬∃ steps part, o.Holds steps part ∧ part.start = 11 := by
  have hsource : (parse? .qml openSource).any fun r => r.root.outline?.any fun o =>
      (o.search (.ofChain ["c"] 10)).1 = some [.property "b" "A",.index 0] ∧
        (o.search (.ofChain ["c"] 11)).1 = none := by
    decide +kernel
  obtain ⟨r,hr,hroot⟩ := (Option.any_eq_true _ _).mp hsource
  obtain ⟨o,ho,hsearch⟩ := (Option.any_eq_true _ _).mp hroot
  obtain ⟨hobject,hnone⟩ := of_decide_eq_true hsearch
  obtain ⟨hiff,hsteps,-⟩ := search_iff_holds (d := .ofChain ["c"] 10) hr ho (List.cons_ne_nil _ _)
  obtain ⟨hiff',-⟩ := search_iff_holds (d := .ofChain ["c"] 11) hr ho (List.cons_ne_nil _ _)
  refine ⟨r,o,hr,ho,?_,fun hheld => ?_⟩
  · obtain ⟨steps,part,hholds,hposition⟩ := hiff.mp (by rw [hobject]; rfl)
    exact ⟨steps,part,hholds,hposition,Option.some.inj ((hsteps steps part hholds hposition).symm.trans hobject)⟩
  · have hsome := hiff'.mpr hheld
    rw [hnone] at hsome
    cases hsome

end Outline
end QmlCodeModel
