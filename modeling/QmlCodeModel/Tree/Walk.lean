import QmlCodeModel.Tree.Size

/-! All nodes of a tree, and the names that patterns bind. -/
namespace QmlCodeModel

namespace Node

/-- A node and all nodes below it, each before its children and these in order. -/
def walk (n : Node) : List Node :=
  n :: n.children.attach.flatMap fun ⟨child, _⟩ => child.walk
termination_by sizeOf n
decreasing_by exact sizeOf_lt_of_mem_children ‹_›

/-- The names that a pattern binds. A default is left out; a name that has one without a colon is
said to stand where the whole property stands. -/
def patternNames (n : Node) : List Ident :=
  match _h : n.kind with
  | .identifier name => [⟨name, n.span⟩]
  | .array elements =>
    elements.attach.flatMap fun
      | ⟨some element, _⟩ => element.patternNames
      | ⟨none, _⟩ => []
  | .object properties => properties.attach.flatMap fun ⟨property, _⟩ => property.patternNames
  | .property (.name name) (some value) .shorthand _ =>
    match value.kind with
    | .identifier text => [⟨text, value.span⟩]
    | _ => [⟨name, n.span⟩]
  | .property _ _ .shorthand _ => []
  | .property _ (some value) _ _ => value.patternNames
  | .spread argument => argument.patternNames
  | .assign _ target _ => target.patternNames
  | _ => []
termination_by sizeOf n
decreasing_by
  all_goals
    apply sizeOf_lt_of_mem_children
    simp [children, Kind.children, *]

end Node

namespace BindingTarget

/-- The names that a target binds, in order. -/
def names : BindingTarget Node → List Ident
  | .name ident => [ident]
  | .pattern literal => literal.patternNames

end BindingTarget
end QmlCodeModel
