import QmlCodeModel.Proofs.Grammar.Objects
import QmlCodeModel.Proofs.Outline.Search
import QmlCodeModel.Proofs.Tree.Objects

/-! The place of the value of a declaration that has been found. For a property it is the value. For an object it is
the object, moved by as much as the name of the declaration takes. -/
namespace QmlCodeModel

namespace Outline

/-- An outline whose parts end at an offset or before it. -/
inductive Within (stop : Nat) : Outline → Prop
  | mk {o : Outline} (span : o.span.stop ≤ stop)
    (properties : ∀ p ∈ o.properties, p.valueStart ≤ stop ∧ p.stop ≤ stop)
    (values : ∀ p ∈ o.properties, ∀ c, p.child = some c → c.Within stop)
    (below : ∀ c ∈ o.children, c.Within stop) : Within stop o

end Outline

section

variable {n x : Node} {f g : ObjectForm} {m : MemberForm} {p : PropertyForm} {stop : Nat}

/-- The value of a property ends at an offset or before it. -/
structure PropertyForm.Within (p : PropertyForm) (last : Nat) : Prop where
  valueStart : p.valueStart ≤ last
  stop : p.stop ≤ last
  array : ∀ node span members, p.value = .array node span members → span.stop ≤ last

end

namespace Outline

namespace Part

/-- Where the value of a part is. An object is its own value. -/
def value : Part → Span
  | property p => ⟨p.valueStart, p.stop⟩
  | object c => c.span

/-- Where the value of a part is said to be. The name of a declaration is taken to stand before its value, but there
is no name before an object in a list. -/
def shown (d : DeclaredProperty) : Part → Span
  | property p => ⟨p.valueStart, max p.valueStart p.stop⟩
  | object c => ⟨c.span.start + d.nameSize, c.span.stop + d.nameSize⟩

/-- When the value of a part is said to be where it is. -/
def Plain (d : DeclaredProperty) : Part → Prop
  | property p => p.valueStart ≤ p.stop
  | object _ => d.nameSize = 0

end Part

end Outline

/-- A declaration says where the value of a part is, in this source. -/
structure DeclaredProperty.Shows (d : DeclaredProperty) (part : Outline.Part) (source : String) : Prop where
  exact : d.valueSpan = part.value
  inside : d.valueSpan.stop ≤ byteWidth source.toList

namespace Outline

variable {o c : Outline} {d : DeclaredProperty} {steps : List PathStep} {part : Part}

end Outline

end QmlCodeModel
