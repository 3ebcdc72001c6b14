import QmlCodeModel.Live.Graph
import QmlCodeModel.Outline.Path

/-! Paths followed through a graph of running objects, and the connections that they end in. -/
namespace QmlCodeModel

/-- A path, with the connection that it has found. -/
structure LivePath where
  steps : List PathStep
  connection : Option Nat := none
  deriving DecidableEq, Repr

namespace LiveGraph

/-- Where a path has come to: an object, or a property of one. -/
inductive Cursor
  | object (number : Nat)
  | property (owner : Nat) (name : String)

/-- The object at a cursor. -/
def objectAt? (g : LiveGraph) : Cursor → Option Nat
  | .object number => some number
  | .property owner name => (g.read? owner name).bind LiveValue.asObject?

/-- The property at a cursor. An object stands for its default property. -/
def propertyAt? (g : LiveGraph) : Cursor → Option (Nat × String)
  | .object number => (g.defaultProperty? number).map fun name => (number, name)
  | .property owner name => some (owner, name)

/-- The element of a value at an index. An object is a list of one; without an object there is the
place, but nothing in it. -/
def elementAt? (value : LiveValue) (index : Nat) : Option (Option Nat) :=
  match value with
  | .object number => if index = 0 then some number else none
  | .list numbers => numbers[index]?.map some
  | _ => none

/-- What a path leads to, from a cursor. Every step must match. -/
def target? (g : LiveGraph) : Cursor → List PathStep → Option LiveTarget
  | _, [] => none
  | cursor, .property name _ :: rest => do
    let object ← g.objectAt? cursor
    if !g.hasProperty object name then none
    else if rest.isEmpty then some { object, property := name }
    else g.target? (.property object name) rest
  | cursor, .index index :: rest => do
    let (owner, name) ← g.propertyAt? cursor
    let element ← elementAt? (← g.read? owner name) index
    if rest.isEmpty then some { object := owner, property := name, index := some index }
    else g.target? (.object (← element)) rest

/-- Makes a connection that listens to a target. -/
def connectTo (g : LiveGraph) (target : LiveTarget) : Nat × LiveGraph :=
  let number := g.nextConnection
  let (handle, g) := g.connect target.object target.property (.connection number)
  (number, { g with
    connections := g.connections.insert number { target, handle }
    nextConnection := number + 1 })

/-- Ends a connection: it listens no longer, and its subscribers are forgotten. -/
def dropConnection (g : LiveGraph) (number : Nat) : LiveGraph :=
  match g.connections.get? number with
  | none => g
  | some c =>
    let g := match c.handle with
      | some handle => g.disconnect c.target.object c.target.property handle
      | none => g
    { g with connections := g.connections.erase number }

end LiveGraph

namespace LivePath

def isConnected (p : LivePath) : Bool := p.connection.isSome

def connection? (p : LivePath) (g : LiveGraph) : Option Connection :=
  p.connection.bind g.connections.get?

/-- Ends the connection of a path. -/
def disconnect (p : LivePath) (g : LiveGraph) : LivePath × LiveGraph :=
  ({ p with connection := none }, match p.connection with
    | some number => g.dropConnection number
    | none => g)

/-- Connects a path to what it leads to from an object. A path that does not match stays as it is. -/
def traverse (p : LivePath) (g : LiveGraph) (root : Nat) : LivePath × LiveGraph :=
  match g.target? (.object root) p.steps with
  | none => (p, g)
  | some target =>
    let (number, g) := g.connectTo target
    ({ p with connection := some number }, (p.disconnect g).2)

/-- Adds an observer to the connection. Says whether there is one. -/
def subscribe (p : LivePath) (g : LiveGraph) (o : Observer) : Bool × LiveGraph :=
  match p.connection with
  | none => (false, g)
  | some number =>
    (true, { g with
      connections := g.connections.modify number fun c =>
        { c with subscribers := c.subscribers ++ [o] } })

/-- The value that a path is connected to. -/
def read? (p : LivePath) (g : LiveGraph) : Option LiveValue := do
  let target := (← p.connection? g).target
  match target.index, ← g.read? target.object target.property with
  | some index, .list numbers => numbers[index]?.map fun number => .object (some number)
  | _, value => some value

/-- Writes the value that a path is connected to. An element of a list can only be an object. -/
def write? (p : LivePath) (g : LiveGraph) (value : LiveValue) : Option LiveGraph.Written :=
  match p.connection? g with
  | none => some ⟨false, g, []⟩
  | some c =>
    let target := c.target
    match target.index, g.read? target.object target.property with
    | some index, some (.list numbers) =>
      match value with
      | .object (some number) =>
        if index < numbers.length then
          g.write? target.object target.property (.list (numbers.set index number))
        else some ⟨false, g, []⟩
      | _ => some ⟨false, g, []⟩
    | _, _ => g.write? target.object target.property value

end LivePath
end QmlCodeModel
