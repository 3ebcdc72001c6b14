import QmlCodeModel.Outline.Basic
import QmlCodeModel.Text.Span
import QmlCodeModel.Text.Split

/-! Paths from an object to a property or an object inside it, found on outlines. -/
namespace QmlCodeModel

/-! A place in a source where a property is declared, as an editor reports it. -/

/-- The dotted name of a property at an offset. Finding its path fills in where its value is. -/
structure DeclaredProperty where
  position : Nat
  chain : List String
  /-- How many bytes the name takes in the source. -/
  nameSize : Nat
  typeName : Option String := none
  parentType : Option String := none
  /-- From the end of the name to the start of the value, which may stand before it. -/
  valueOffset : Int := 0
  valueSize : Nat := 0
  deriving DecidableEq, Repr

namespace DeclaredProperty

def ofChain (chain : List String) (position : Nat) : DeclaredProperty :=
  { position, chain, nameSize := (".".intercalate chain).utf8ByteSize }

/-- Cuts a dotted name into its parts, without the blanks around them and without empty ones. -/
def ofDotted (name : String) (position : Nat) : DeclaredProperty :=
  ofChain (((splitOnChar '.' name.toList).map trimBlanks).filter (!·.isEmpty) |>.map String.ofList)
    position

/-- The offset of the value. -/
def valuePosition (d : DeclaredProperty) : Nat :=
  (((d.position + d.nameSize : Nat) : Int) + d.valueOffset).toNat

def valueSpan (d : DeclaredProperty) : Span :=
  ⟨d.valuePosition, d.valuePosition + d.valueSize⟩

end DeclaredProperty

/-- A step of a path: into a property, or to one of the objects of a list. -/
inductive PathStep
  | property (name ownerType : String)
  | index (index : Nat)
  deriving DecidableEq, Repr

def PathStep.render : PathStep → String
  | .property name ownerType => ownerType ++ "." ++ name
  | .index i => "[" ++ toString i ++ "]"

def renderPath (steps : List PathStep) : String := " > ".intercalate (steps.map PathStep.render)

/-- What was found at a position: the path to it, and where its value is. -/
structure Found where
  steps : List PathStep
  valueOffset : Int
  valueSize : Nat
  deriving DecidableEq, Repr

def Found.below (steps : List PathStep) (f : Found) : Found := { f with steps := steps ++ f.steps }

/-- One step for each part of a dotted name. -/
def nameSteps (names : List String) (ownerType : String) : List PathStep :=
  names.map fun name => .property name ownerType

namespace Outline

/-- A property is looked at if it starts at the position, or has an object that goes around it. -/
def concerns (position : Nat) (p : OutlineProperty Outline) : Bool :=
  p.start == position || (p.child.isSome && p.start < position && position < p.stop)

/-- An object is looked at if it starts at the position or goes around it. -/
def spans (position : Nat) (o : Outline) : Bool :=
  o.span.start ≤ position && (o.span.start == position || position < o.span.stop)

/-- The path to a property that is declared where it was looked for. -/
def foundProperty (d : DeclaredProperty) (p : OutlineProperty Outline) : Option Found :=
  if d.chain.isEmpty then none
  else
    some ⟨nameSteps d.chain p.ownerType, (p.valueStart : Int) - p.start - d.nameSize,
      p.stop - p.valueStart⟩

/-- The path to what starts at the position of a declaration. The first property that is looked at
decides, and only if there is none the first object. -/
def find? (o : Outline) (d : DeclaredProperty) : Option Found :=
  match _hp : o.properties.find? (concerns d.position) with
  | some p =>
    if p.start == d.position then foundProperty d p
    else
      match _hc : p.child with
      | some c => (c.find? d).map (Found.below (nameSteps p.name p.ownerType))
      | none => none
  | none =>
    match _hz : o.children.zipIdx.find? fun (c, _) => c.spans d.position with
    | some (c, i) =>
      if c.span.start == d.position then some ⟨[.index i], 0, c.span.stop - c.span.start⟩
      else (c.find? d).map (Found.below [.index i])
    | none => none
termination_by sizeOf o
decreasing_by
  · exact sizeOf_lt_of_mem_properties (List.mem_of_find?_eq_some _hp) _hc
  · exact sizeOf_lt_of_mem_children (List.fst_mem_of_mem_zipIdx (List.mem_of_find?_eq_some _hz))

/-- The search that gives an editor its answer: where the declaration is found, the place of its value is
written down in it, and the steps are put together on the way back. -/
def search (o : Outline) (d : DeclaredProperty) : Option (List PathStep) × DeclaredProperty :=
  match _hp : o.properties.find? (concerns d.position) with
  | some p =>
    if p.start == d.position then
      if d.chain.isEmpty then (none, d)
      else
        (some (nameSteps d.chain p.ownerType), { d with
          valueOffset := (p.valueStart : Int) - p.start - d.nameSize
          valueSize := p.stop - p.valueStart })
    else
      match _hc : p.child with
      | some c =>
        let (steps, d) := c.search d
        (steps.map (nameSteps p.name p.ownerType ++ ·), d)
      | none => (none, d)
  | none =>
    match _hz : o.children.zipIdx.find? fun (c, _) => c.spans d.position with
    | some (c, i) =>
      if c.span.start == d.position then
        (some [.index i], { d with valueOffset := 0, valueSize := c.span.stop - c.span.start })
      else
        let (steps, d) := c.search d
        (steps.map (.index i :: ·), d)
    | none => (none, d)
termination_by sizeOf o
decreasing_by
  · exact sizeOf_lt_of_mem_properties (List.mem_of_find?_eq_some _hp) _hc
  · exact sizeOf_lt_of_mem_children (List.fst_mem_of_mem_zipIdx (List.mem_of_find?_eq_some _hz))

end Outline

/-- The declaration with the place of the value that was found for it. -/
def DeclaredProperty.locate (d : DeclaredProperty) (f : Found) : DeclaredProperty :=
  { d with valueOffset := f.valueOffset, valueSize := f.valueSize }

end QmlCodeModel
