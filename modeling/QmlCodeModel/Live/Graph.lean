import QmlCodeModel.FiniteMap
import QmlCodeModel.Number.Double

/-! A graph of running objects. Whoever listens to a property is called, in the order of coming, after
each write to it, and may write the value on to another property. -/
namespace QmlCodeModel

/-! The values of the properties of running objects. Objects are named by their numbers. -/

inductive LiveValue
  | undefined
  | bool (value : Bool)
  | number (value : Double)
  | string (value : String)
  | object (target : Option Nat)
  | list (items : List Nat)
  deriving DecidableEq, Repr, Inhabited

/-- How steps of a path go through a value. -/
inductive ValueCategory
  | normal | object | list
  deriving DecidableEq, Repr

namespace LiveValue

def category : LiveValue → ValueCategory
  | .object _ => .object
  | .list _ => .list
  | _ => .normal

def asObject? : LiveValue → Option Nat
  | .object target => target
  | _ => none

/-- Equality of values. Numbers are compared as numbers, so that what is no number differs from
itself. -/
def equals : LiveValue → LiveValue → Bool
  | .number x, .number y => x.equals y
  | v, w => v == w

end LiveValue

/-- One that is called with the value that a property gets. -/
structure Observer where
  tag : String
  /-- The object and property that the value is written on to. -/
  forward : Option (Nat × String) := none
  deriving DecidableEq, Repr

/-- What listens to a property: an observer, or a connection that has observers of its own. -/
inductive Listener
  | observer (observer : Observer)
  | connection (number : Nat)
  deriving DecidableEq, Repr

structure LiveObject where
  typeName : String
  /-- The property that holds the objects declared without a name. -/
  defaultProperty : Option String := none
  values : FiniteMap String LiveValue := {}
  /-- Who listens to each property, by the handles given out. -/
  listeners : FiniteMap String (List (Nat × Listener)) := {}
  nextHandle : Nat := 0
  deriving DecidableEq, Repr

/-- A property, or an element of the list that a property holds, that a path leads to. -/
structure LiveTarget where
  object : Nat
  property : String
  index : Option Nat := none
  deriving DecidableEq, Repr

/-- What keeps a path at its target: it listens there and calls its subscribers. -/
structure Connection where
  target : LiveTarget
  handle : Option Nat
  subscribers : List Observer := []
  deriving DecidableEq, Repr

structure LiveGraph where
  objects : List LiveObject := []
  connections : FiniteMap Nat Connection := {}
  nextConnection : Nat := 0
  deriving DecidableEq, Repr

namespace LiveObject

def listenersTo (o : LiveObject) (property : String) : List (Nat × Listener) :=
  (o.listeners.get? property).getD []

/-- Lets a listener in, if there is such a property. -/
def connect? (o : LiveObject) (property : String) (l : Listener) : Option (Nat × LiveObject) :=
  if o.values.contains property then
    some (o.nextHandle, { o with
      listeners := o.listeners.insert property (o.listenersTo property ++ [(o.nextHandle, l)])
      nextHandle := o.nextHandle + 1 })
  else none

/-- Takes out the listener with a handle. -/
def disconnect (o : LiveObject) (property : String) (handle : Nat) : LiveObject :=
  { o with
    listeners := match (o.listenersTo property).filter (·.1 ≠ handle) with
      | [] => o.listeners.erase property
      | rest => o.listeners.insert property rest }

end LiveObject

namespace LiveGraph

def object? (g : LiveGraph) (number : Nat) : Option LiveObject := g.objects[number]?

def read? (g : LiveGraph) (object : Nat) (property : String) : Option LiveValue :=
  (g.object? object).bind (·.values.get? property)

def hasProperty (g : LiveGraph) (object : Nat) (property : String) : Bool :=
  (g.read? object property).isSome

def defaultProperty? (g : LiveGraph) (object : Nat) : Option String :=
  (g.object? object).bind LiveObject.defaultProperty

def typeName (g : LiveGraph) (object : Nat) : String :=
  ((g.object? object).map LiveObject.typeName).getD ""

/-- Adds an object. Its number is how many there were before. -/
def add (g : LiveGraph) (o : LiveObject) : LiveGraph := { g with objects := g.objects ++ [o] }

/-- Lets a listener in. The handle serves to let it go. -/
def connect (g : LiveGraph) (object : Nat) (property : String) (l : Listener) :
    Option Nat × LiveGraph :=
  match (g.object? object).bind (·.connect? property l) with
  | some (handle, o) => (some handle, { g with objects := g.objects.set object o })
  | none => (none, g)

def disconnect (g : LiveGraph) (object : Nat) (property : String) (handle : Nat) : LiveGraph :=
  { g with objects := g.objects.modify object (·.disconnect property handle) }

def listenerCount (g : LiveGraph) (object : Nat) (property : String) : Nat :=
  ((g.object? object).map fun o => (o.listenersTo property).length).getD 0

/-- Who is called when a property is written: the observers, and those of connections. -/
def observersOf (g : LiveGraph) (object : Nat) (property : String) : List Observer :=
  (((g.object? object).map (·.listenersTo property)).getD []).flatMap fun
    | (_, .observer o) => [o]
    | (_, .connection number) => ((g.connections.get? number).map Connection.subscribers).getD []

/-- Gives a property a value, if there is such a property. -/
def set? (g : LiveGraph) (object : Nat) (property : String) (value : LiveValue) :
    Option LiveGraph :=
  if g.hasProperty object property then
    some { g with
      objects := g.objects.modify object fun o =>
        { o with values := o.values.insert property value } }
  else none

/-- The outcome of a write: whether there is such a property, and who was called with what. -/
structure Written where
  accepted : Bool
  graph : LiveGraph
  calls : List (String × LiveValue)

/-- Writes a property and calls its observers, which write on through at most so many others. -/
def writeWithin : Nat → LiveGraph → Nat → String → LiveValue → Option Written
  | 0, _, _, _, _ => none
  | levels + 1, g, object, property, value =>
    match g.set? object property value with
    | none => some ⟨false, g, []⟩
    | some g =>
      (g.observersOf object property).foldlM (fun w o => do
        let called := w.calls ++ [(o.tag, value)]
        match o.forward with
        | none => some { w with calls := called }
        | some (next, nextProperty) =>
          let inner ← writeWithin levels w.graph next nextProperty value
          some { w with graph := inner.graph, calls := called ++ inner.calls }) ⟨true, g, []⟩

/-- How many listeners and subscribers there are. -/
def observerCount (g : LiveGraph) : Nat :=
  (g.objects.flatMap fun o => o.listeners.values.flatten).length +
    (g.connections.values.flatMap (·.subscribers)).length

/-- Writes a property. There is no answer if observers write a value on in a circle; otherwise each
property is passed once at most, so that the levels suffice. -/
def write? (g : LiveGraph) (object : Nat) (property : String) (value : LiveValue) :
    Option Written :=
  writeWithin (g.observerCount + 1) g object property value

end LiveGraph

end QmlCodeModel
