import QmlCodeModel.FiniteMap
import QmlCodeModel.Text.CharClass.LetterCase
import QmlCodeModel.Tree.Walk

/-! Objects of a document with their members, and the names by which the document calls them. -/
namespace QmlCodeModel

inductive ObjectMemberKind
  | property (typeName : Option String) (isList isDefault isReadonly isRequired : Bool)
  | signal (parameters : List String)
  | function
  | variable
  | enumeration
  /-- A script for a property. -/
  | scriptBinding
  /-- An object for a property, or put on one. -/
  | objectBinding
  /-- Objects in brackets for a property. -/
  | arrayBinding
  deriving DecidableEq, Repr

structure ObjectMember where
  name : String
  kind : ObjectMemberKind
  /-- The number of the node. -/
  node : Nat
  span : Span
  deriving DecidableEq, Repr

/-- An object of a document. Objects are numbered in the order in which they start. -/
structure ObjectValue where
  node : Nat
  typeName : String
  parent : Option Nat
  id : Option String := none
  members : List ObjectMember := []
  children : List Nat := []
  /-- It only groups bindings of its parent. -/
  grouped : Bool
  deriving DecidableEq, Repr

def ObjectValue.member? (o : ObjectValue) (name : String) : Option ObjectMember :=
  o.members.find? (·.name == name)

/-- Names of objects in the order of their first declaration, each with the object that was last
given the name. -/
abbrev IdEnvironment := FiniteMap String Nat

/-- What is wrong with the declaration of an id. -/
inductive IdFault
  | notPlain
  | inGroup
  | capital (name : String)
  | duplicate (name : String)
  deriving DecidableEq, Repr

namespace IdFault

def message : IdFault → String
  | .notPlain => "id expected to be a plain identifier"
  | .inGroup => "grouped bindings cannot declare an id"
  | .capital name => "id `" ++ name ++ "` should start with a lowercase letter"
  | .duplicate name => "duplicate id `" ++ name ++ "`"

end IdFault
end QmlCodeModel
