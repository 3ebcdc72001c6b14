import QmlCodeModel.Document
import QmlCodeModel.Outline.Form
import QmlCodeModel.Outline.Path
import QmlCodeModel.Ranges.Basic

/-! A document that an editor has open, and what the editor asks about it. The editor keeps references
to objects and nodes; they hold for one reading of one document only. -/
namespace QmlCodeModel

/-- A reference to an object. Without an object it is null. -/
structure ValueReference where
  /-- The reading that the object belongs to. -/
  identity : Option Nat := none
  /-- The number of the object. -/
  object : Option Nat := none
  deriving DecidableEq, Repr, Inhabited

def ValueReference.isNull (v : ValueReference) : Bool := v.object.isNone

/-- A reference to a node of a tree. Without a node it is null. -/
structure NodeReference where
  /-- The reading that the node belongs to. -/
  identity : Option Nat := none
  /-- The number of the node. -/
  node : Option Nat := none
  deriving DecidableEq, Repr, Inhabited

def NodeReference.isNull (n : NodeReference) : Bool := n.node.isNone

/-- What an editor is told about an object. -/
structure ObjectDescription where
  typeName : String
  id : Option String
  members : List ObjectMember
  parent : ValueReference
  deriving DecidableEq, Repr

structure OpenDocument where
  document : Document
  /-- The number of the last reading, which no other reading of any document has. -/
  identity : Nat

/-- The type name of an object, and the node with its members. -/
def Node.objectParts? (n : Node) : Option (QualifiedName × Node) :=
  match n.kind with
  | .objectDefinition typeName initializer | .objectBinding _ typeName initializer _ =>
    some (typeName, initializer)
  | _ => none

namespace OpenDocument

/-- The names of objects, in the order of their declaration. -/
def ids (d : OpenDocument) : List String :=
  (d.document.symbols?.map fun s => s.tables.ids.keys).getD []

/-- A reference to an object of the current reading. -/
def reference (d : OpenDocument) (object : Option Nat) : ValueReference :=
  ⟨some d.identity, object⟩

def rootObject (d : OpenDocument) : ValueReference :=
  d.reference (d.document.symbols?.bind Symbols.rootObject)

def valueForId (d : OpenDocument) (id : String) : ValueReference :=
  d.reference (d.document.symbols?.bind fun s => s.tables.ids.get? id)

/-- The object that a reference means, if it is one to the current reading of this document. -/
def resolve? (d : OpenDocument) (v : ValueReference) : Option (Reading × ObjectValue) :=
  if v.identity = some d.identity then do
    let reading ← d.document.reading
    let object ← reading.symbols.tables.objects[← v.object]?
    return (reading, object)
  else none

def describe? (d : OpenDocument) (v : ValueReference) : Option ObjectDescription :=
  (d.resolve? v).map fun (_, o) => ⟨o.typeName, o.id, o.members, d.reference o.parent⟩

/-- The type of an object. A reference that means nothing has none. -/
def typeName (d : OpenDocument) (v : ValueReference) : String :=
  ((d.resolve? v).map fun (_, o) => o.typeName).getD ""

/-- The type name and the members of the object that a reference means. -/
def parts? (d : OpenDocument) (v : ValueReference) : Option (QualifiedName × Node) := do
  let (reading, object) ← d.resolve? v
  (← reading.parse.nodes[object.node]?).objectParts?

def typeNameSpan? (d : OpenDocument) (v : ValueReference) : Option Span :=
  (d.parts? v).map fun (typeName, _) => typeName.span

/-- The stretch between the braces of an object, with these. -/
def bodySpan? (d : OpenDocument) (v : ValueReference) : Option Span :=
  (d.parts? v).map fun (_, initializer) => initializer.span

/-- The ranges of the source as it was read last. -/
def ranges (d : OpenDocument) : Ranges :=
  (d.document.reading.map fun r => Ranges.ofRoot r.parse.root).getD {}

/-- The object that the innermost of these ranges around an offset belongs to, and that range. -/
def valueIn (d : OpenDocument) (ranges : Ranges) (offset : Nat) : ValueReference × Option Range :=
  match ranges.closest? offset with
  | none => ({}, none)
  | some range =>
    (d.reference (d.document.symbols?.bind fun s => s.tables.objectOf? range.node), some range)

def valueAt (d : OpenDocument) (offset : Nat) : ValueReference × Option Range :=
  d.valueIn d.ranges offset

/-- The node that the innermost of these ranges around an offset belongs to. -/
def nodeIn (d : OpenDocument) (ranges : Ranges) (offset : Nat) : NodeReference :=
  ⟨some d.identity, (ranges.closest? offset).map Range.node⟩

def nodeAt (d : OpenDocument) (offset : Nat) : NodeReference := d.nodeIn d.ranges offset

end OpenDocument

/-- The outline of the first object of a document. -/
def Document.outline? (d : Document) : Option Outline :=
  d.reading.bind fun r => r.parse.root.outline?

/-- The path to what a declaration means in the document. -/
def Document.find? (d : Document) (declared : DeclaredProperty) : Option Found :=
  d.outline?.bind (·.find? declared)

/-- Looks for a declaration in the document, which fills in where its value is. -/
def Document.search (d : Document) (declared : DeclaredProperty) :
    Option (List PathStep) × DeclaredProperty :=
  d.outline?.elim (none, declared) (·.search declared)

/-- A document in an editor takes its dialect from its file. -/
def Document.edited (workingDirectory file : Path) : Document :=
  .new workingDirectory file (.ofEditedPath file)

/-- The outline of the first object at or below the node that a reference means. -/
def OpenDocument.outlineAt? (d : OpenDocument) (n : NodeReference) : Option Outline :=
  if n.identity = some d.identity then do
    let reading ← d.document.reading
    (← reading.parse.nodes[← n.node]?).outline?
  else none

end QmlCodeModel
