import QmlCodeModel.Number.Double

/-! Values of configuration files in TOML, and the rules by which lines define tables. -/
namespace QmlCodeModel.Toml

/-- How a table has come about. -/
inductive TableKind
  /-- Written as a value between braces. -/
  | inline
  /-- Opened by a header. -/
  | header
  /-- Only named on the way by headers of tables inside it. -/
  | implied
  /-- Only named on the way by keys with dots. -/
  | dotted
  deriving DecidableEq, Repr

inductive Value
  | string (text : String)
  | integer (value : Int)
  | float (value : Double)
  | bool (value : Bool)
  /-- A date, a time of day, or both. -/
  | moment
  | array (items : List Value)
  | table (kind : TableKind) (fields : List (String × Value))
  /-- Tables that are opened one after the other by the same header. -/
  | tables (items : List (List (String × Value)))
  deriving Inhabited

structure Table where
  kind : TableKind
  fields : List (String × Value) := []

/-- What names tables on the way to another one. -/
inductive Route
  | header
  /-- A key with dots. -/
  | key
  deriving DecidableEq, Repr

namespace Route

/-- The kind of the tables that come about on the way. -/
def newKind : Route → TableKind
  | .header => .implied
  | .key => .dotted

/-- The way may lead through a table of this kind. Only a header leads through a table that is
opened elsewhere. -/
def passes : Route → TableKind → Bool
  | _, .inline => false
  | _, .implied | _, .dotted => true
  | .header, .header => true
  | .key, .header => false

end Route

namespace Table

def find? (t : Table) (key : String) : Option Value := t.fields.lookup key

/-- Gives a key a value, whatever it had before. -/
def set (t : Table) (key : String) (v : Value) : Table :=
  if (t.find? key).isSome then
    { t with fields := t.fields.map fun f => if f.1 = key then (key, v) else f }
  else { t with fields := t.fields ++ [(key, v)] }

def toValue (t : Table) : Value := .table t.kind t.fields

/-- Changes the table at the end of a way. Tables missing on the way are made; of tables under one
header the last is meant. -/
def change? (route : Route) (change : Table → Option Table) :
    List String → Table → Option Table
  | [], t => change t
  | key :: path, t =>
    match t.find? key with
    | none => do return t.set key (← change? route change path ⟨route.newKind, []⟩).toValue
    | some (.table kind fields) =>
      if route.passes kind then do
        return t.set key (← change? route change path ⟨kind, fields⟩).toValue
      else none
    | some (.tables items) => do
      let last ← change? route change path ⟨.header, ← items.getLast?⟩
      return t.set key (.tables (items.dropLast ++ [last.fields]))
    | some _ => none

/-- Defines a key, which may have dots before its last part. It must be new, and a table that is
reached by dots must have come about by dots. -/
def define? (path : List String) (key : String) (v : Value) : Table → Option Table :=
  change? .key (fun t =>
    if (t.find? key).isSome || ((t.kind = .dotted) = path.isEmpty) then none
    else some (t.set key v)) path

/-- Opens the table of a header. It must be new or only implied so far. -/
def openTable? (path : List String) (key : String) : Table → Option Table :=
  change? .header (fun t =>
    match t.find? key with
    | none => some (t.set key (.table .header []))
    | some (.table .implied fields) => some (t.set key (.table .header fields))
    | some _ => none) path

/-- Opens one more table under the same header. -/
def openItem? (path : List String) (key : String) : Table → Option Table :=
  change? .header (fun t =>
    match t.find? key with
    | none => some (t.set key (.tables [[]]))
    | some (.tables items) => some (t.set key (.tables (items ++ [[]])))
    | some _ => none) path

end Table
end QmlCodeModel.Toml
