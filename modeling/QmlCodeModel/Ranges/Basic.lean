import QmlCodeModel.Halving
import QmlCodeModel.Text.CharClass.LetterCase
import QmlCodeModel.Tree.Size

/-! Ranges of a source that belong to objects, bindings and functions, and those around an offset. Every level is
searched by halving. -/
namespace QmlCodeModel

inductive RangeKind
  | object | objectBinding | groupedBinding | arrayBinding | scriptBlock | function
  deriving DecidableEq, Repr

structure Range where
  span : Span
  /-- The number of the node that the range belongs to. -/
  node : Nat
  kind : RangeKind
  deriving DecidableEq, Repr

/-- Ranges nest like the constructs that they belong to. -/
inductive RangeTree
  | mk (range : Range) (inner : List RangeTree)
  deriving Repr

namespace RangeTree

def range : RangeTree → Range
  | mk range _ => range

def inner : RangeTree → List RangeTree
  | mk _ inner => inner

theorem sizeOf_inner_lt (t : RangeTree) : sizeOf t.inner < sizeOf t := by
  cases t
  simp only [inner, mk.sizeOf_spec]
  omega

/-- A range and all ranges in it, each before those inside it. -/
def toList (t : RangeTree) : List Range :=
  t.range :: t.inner.attach.flatMap fun ⟨i, _⟩ => i.toList
termination_by sizeOf t
decreasing_by exact Nat.lt_trans (List.sizeOf_lt_of_mem ‹_›) t.sizeOf_inner_lt

end RangeTree

/-- A type name that starts with a small letter names a group of properties. -/
def QualifiedName.isGroup (q : QualifiedName) : Bool :=
  q.parts.head?.any fun part => startsLowercase part.name

/-- The range that belongs to a node. That of an object is the part in braces. -/
def Node.range? (n : Node) : Option Range :=
  match n.kind with
  | .objectDefinition typeName initializer =>
    some ⟨initializer.span, n.id, if typeName.isGroup then .groupedBinding else .object⟩
  | .objectBinding _ _ initializer _ => some ⟨initializer.span, n.id, .objectBinding⟩
  | .arrayBinding _ _ brackets => some ⟨brackets, n.id, .arrayBinding⟩
  | .scriptBinding _ statement =>
    match statement.kind with
    | .block _ => some ⟨statement.span, n.id, .scriptBlock⟩
    | _ => none
  | .functionDeclaration _ | .functionExpression _ => some ⟨n.span, n.id, .function⟩
  | _ => none

/-- The outermost ranges at and below a node. -/
def Node.rangeTrees (n : Node) : List RangeTree :=
  let inner := n.children.attach.flatMap fun ⟨child, _⟩ => child.rangeTrees
  match n.range? with
  | some range => [.mk range inner]
  | none => inner
termination_by sizeOf n
decreasing_by exact sizeOf_lt_of_mem_children ‹_›

namespace RangeTree

/-- The range of one level that contains an offset. -/
def findInLevel (level : List RangeTree) (offset : Nat) : Option RangeTree :=
  level[halve (·.range.span.start ≤ offset) level 0 level.length]?.filter
    (·.range.span.contains offset)

theorem mem_of_findInLevel {level : List RangeTree} {offset : Nat} {t : RangeTree}
    (h : findInLevel level offset = some t) : t ∈ level := by
  simp only [findInLevel, Option.filter_eq_some_iff] at h
  exact List.mem_of_getElem? h.1

/-- The ranges that contain an offset, the outermost first. -/
def pathIn (level : List RangeTree) (offset : Nat) : List Range :=
  match _h : findInLevel level offset with
  | some t => t.range :: pathIn t.inner offset
  | none => []
termination_by sizeOf level
decreasing_by
  exact Nat.lt_trans t.sizeOf_inner_lt (List.sizeOf_lt_of_mem (mem_of_findInLevel _h))

end RangeTree

/-- The ranges of a source. -/
structure Ranges where
  roots : List RangeTree := []

namespace Ranges

def ofRoot (root : Node) : Ranges := ⟨root.rangeTrees⟩

/-- All ranges, each before those inside it. -/
def toList (r : Ranges) : List Range := r.roots.flatMap RangeTree.toList

def size (r : Ranges) : Nat := r.toList.length

def isEmpty (r : Ranges) : Bool := r.size == 0

/-- The ranges around an offset, the outermost first. -/
def path (r : Ranges) (offset : Nat) : List Range := RangeTree.pathIn r.roots offset

/-- The innermost range around an offset. -/
def closest? (r : Ranges) (offset : Nat) : Option Range := (r.path offset).getLast?

end Ranges
end QmlCodeModel
