import QmlCodeModel.Ranges.Basic

/-! The outline of an object: where it and each of its properties start and end. Paths to live
properties are found on outlines alone. -/
namespace QmlCodeModel

/-- A property in an outline, over a type of outlines. -/
structure OutlineProperty (α : Type) where
  /-- The parts of its dotted name. -/
  name : List String
  /-- The type of the object that it is written in. -/
  ownerType : String
  /-- The type that it is declared with, if it is declared here. -/
  declaredType : Option String := none
  start : Nat
  valueStart : Nat
  stop : Nat
  /-- The object or group of properties that is its value, or a list without type for an array. -/
  child : Option α := none
  deriving Repr

def OutlineProperty.joinedName {α : Type} (p : OutlineProperty α) : String :=
  ".".intercalate p.name

inductive Outline
  | mk (node : Nat) (typeName : String) (span : Span) (properties : List (OutlineProperty Outline))
    (children : List Outline)
  deriving Repr

namespace Outline

def node : Outline → Nat
  | mk node _ _ _ _ => node

def typeName : Outline → String
  | mk _ typeName _ _ _ => typeName

def span : Outline → Span
  | mk _ _ span _ _ => span

def properties : Outline → List (OutlineProperty Outline)
  | mk _ _ _ properties _ => properties

def children : Outline → List Outline
  | mk _ _ _ _ children => children

theorem sizeOf_lt_of_mem_children {o c : Outline} (h : c ∈ o.children) : sizeOf c < sizeOf o := by
  cases o
  have := List.sizeOf_lt_of_mem h
  simp only [children, mk.sizeOf_spec] at this ⊢
  omega

theorem sizeOf_lt_of_mem_properties {o c : Outline} {p : OutlineProperty Outline}
    (hp : p ∈ o.properties) (hc : p.child = some c) : sizeOf c < sizeOf o := by
  cases o
  cases p
  have := List.sizeOf_lt_of_mem hp
  simp only at hc
  subst hc
  simp only [properties, mk.sizeOf_spec, OutlineProperty.mk.sizeOf_spec,
    Option.some.sizeOf_spec] at this ⊢
  omega

/-- The outline as indented lines. -/
def dumpAt (depth : Nat) (o : Outline) : String :=
  let indent := String.ofList (List.replicate (2 * depth) ' ')
  let bounds (numbers : List Nat) : String :=
    " [" ++ ", ".intercalate (numbers.map toString) ++ ")\n"
  let head := indent ++ o.typeName ++ bounds [o.span.start, o.span.stop]
  let properties := o.properties.attach.map fun ⟨p, _⟩ =>
    let line := indent ++ "  ." ++ p.joinedName ++ bounds [p.start, p.valueStart, p.stop]
    match _hc : p.child with
    | some c => line ++ c.dumpAt (depth + 2)
    | none => line
  let children := o.children.attach.map fun ⟨c, _⟩ => c.dumpAt (depth + 1)
  head ++ String.join properties ++ String.join children
termination_by sizeOf o
decreasing_by
  · exact sizeOf_lt_of_mem_properties ‹_› ‹_›
  · exact sizeOf_lt_of_mem_children ‹_›

def dump (o : Outline) : String := o.dumpAt 0

end Outline
end QmlCodeModel
