import Mathlib.Data.List.Chain
import QmlCodeModel.Live.Path
import QmlCodeModel.Proofs.Grammar.Source
import QmlCodeModel.Proofs.Outline.Search

/-! Running objects that are made as an outline says, and where the paths found on the outline lead among
them. -/
namespace QmlCodeModel

/-- An element of a list. -/
def LiveValue.item? (i : Nat) : LiveValue → Option Nat
  | .list items => items[i]?
  | _ => none

namespace LiveGraph

/-- Follows a dotted name through objects, to the one with the property that the name ends with. -/
def place? (g : LiveGraph) : Nat → List String → Option (Nat × String)
  | _, [] => none
  | object, [name] => if g.hasProperty object name then some (object, name) else none
  | object, name :: next :: names =>
    ((g.read? object name).bind LiveValue.asObject?).bind fun value => g.place? value (next :: names)

/-- What the property holds that a dotted name ends with. -/
def held? (g : LiveGraph) (object : Nat) (names : List String) : Option LiveValue :=
  (g.place? object names).bind fun (holder, name) => g.read? holder name

/-- The list of the objects that are declared without a name. -/
def unnamed? (g : LiveGraph) (object : Nat) : Option LiveValue :=
  (g.defaultProperty? object).bind (g.read? object)

/-- The object that a turn leads to. -/
def turn? (g : LiveGraph) (object : Nat) : Turn → Option Nat
  | .value p => (g.held? object p.name).bind LiveValue.asObject?
  | .element p i => (g.held? object p.name).bind (LiveValue.item? i)
  | .child i => (g.unnamed? object).bind (LiveValue.item? i)

def reach? (g : LiveGraph) : Nat → List Turn → Option Nat
  | object, [] => some object
  | object, t :: turns => (g.turn? object t).bind fun next => g.reach? next turns

/-- An object is made as an outline says: it has the properties, and they hold what they hold there. -/
def Instantiates (g : LiveGraph) (object : Nat) (o : Outline) : Prop :=
  (∀ p, (_hp : p ∈ o.properties) → ∃ value, g.held? object p.name = some value ∧
    match _hc : p.child with
    | none => True
    | some c =>
      if c.typeName = "" then
        ∃ items, value = .list items ∧ ∀ i, (_hi : i < c.children.length) →
          ∃ next, items[i]? = some next ∧ g.Instantiates next c.children[i]
      else ∃ next, value = .object (some next) ∧ g.Instantiates next c) ∧
  (o.children ≠ [] → ∃ items, g.unnamed? object = some (.list items) ∧
    ∀ i, (_hi : i < o.children.length) →
      ∃ next, items[i]? = some next ∧ g.Instantiates next o.children[i])
termination_by sizeOf o
decreasing_by
  · exact Nat.lt_trans (Outline.sizeOf_lt_of_mem_children (List.getElem_mem _hi))
      (Outline.sizeOf_lt_of_mem_properties _hp _hc)
  · exact Outline.sizeOf_lt_of_mem_properties _hp _hc
  · exact Outline.sizeOf_lt_of_mem_children (List.getElem_mem _hi)

variable {g : LiveGraph} {object : Nat} {o c inner : Outline} {p : OutlineProperty Outline} {i : Nat}

lemma place?_of_held? {value : LiveValue} {names : List String} (h : g.held? object names = some value) :
    ∃ holder name, g.place? object names = some (holder,name) ∧ g.read? holder name = some value := by
  obtain ⟨⟨holder,name⟩,hplace,hread⟩ := Option.bind_eq_some_iff.mp h
  exact ⟨holder,name,hplace,hread⟩

lemma reach?_value {next : Nat} (hheld : g.held? object p.name = some (.object (some next)))
    (turns : List Turn) : g.reach? object (.value p :: turns) = g.reach? next turns := by
  rw [reach?,turn?,hheld]
  rfl

lemma reach?_element {items : List Nat} {next : Nat} (hheld : g.held? object p.name = some (.list items))
    (hitem : items[i]? = some next) (turns : List Turn) :
    g.reach? object (.element p i :: turns) = g.reach? next turns := by
  rw [reach?,turn?,hheld,Option.bind_some,LiveValue.item?,hitem]
  rfl

lemma reach?_child {items : List Nat} {next : Nat} (hheld : g.unnamed? object = some (.list items))
    (hitem : items[i]? = some next) (turns : List Turn) :
    g.reach? object (.child i :: turns) = g.reach? next turns := by
  rw [reach?,turn?,hheld,Option.bind_some,LiveValue.item?,hitem]
  rfl

namespace Instantiates

lemma place (h : g.Instantiates object o) (hp : p ∈ o.properties) :
    ∃ holder name, g.place? object p.name = some (holder,name) := by
  rw [Instantiates] at h
  obtain ⟨value,hvalue,-⟩ := h.1 p hp
  obtain ⟨holder,name,hplace,-⟩ := place?_of_held? hvalue
  exact ⟨holder,name,hplace⟩

lemma value (h : g.Instantiates object o) (hp : p ∈ o.properties) (hc : p.child = some c)
    (typed : c.typeName ≠ "") :
    ∃ next, g.held? object p.name = some (.object (some next)) ∧ g.Instantiates next c := by
  rw [Instantiates] at h
  obtain ⟨value,hvalue,hchild⟩ := h.1 p hp
  split at hchild
  · rename_i hnone
    rw [hc] at hnone
    cases hnone
  · rename_i c' hc'
    obtain rfl := Option.some.inj (hc.symm.trans hc')
    rw [if_neg typed] at hchild
    obtain ⟨next,rfl,hnext⟩ := hchild
    exact ⟨next,hvalue,hnext⟩

lemma element {list : Outline} (h : g.Instantiates object o) (hp : p ∈ o.properties)
    (hlist : p.child = some list) (untyped : list.typeName = "") (hc : list.children[i]? = some c) :
    ∃ items next, g.held? object p.name = some (.list items) ∧ items[i]? = some next ∧
      g.Instantiates next c := by
  rw [Instantiates] at h
  obtain ⟨value,hvalue,hchild⟩ := h.1 p hp
  split at hchild
  · rename_i hnone
    rw [hlist] at hnone
    cases hnone
  · rename_i list' hlist'
    obtain rfl := Option.some.inj (hlist.symm.trans hlist')
    rw [if_pos untyped] at hchild
    obtain ⟨items,rfl,hitems⟩ := hchild
    obtain ⟨hi,rfl⟩ := List.getElem?_eq_some_iff.mp hc
    obtain ⟨next,hnext,hinst⟩ := hitems i hi
    exact ⟨items,next,hvalue,hnext,hinst⟩

lemma child (h : g.Instantiates object o) (hc : o.children[i]? = some c) :
    ∃ items next, g.unnamed? object = some (.list items) ∧ items[i]? = some next ∧
      g.Instantiates next c := by
  rw [Instantiates] at h
  obtain ⟨hi,rfl⟩ := List.getElem?_eq_some_iff.mp hc
  obtain ⟨items,hvalue,hitems⟩ := h.2 (List.ne_nil_of_length_pos (Nat.zero_lt_of_lt hi))
  obtain ⟨next,hnext,hinst⟩ := hitems i hi
  exact ⟨items,next,hvalue,hnext,hinst⟩

end Instantiates

/-- The turns lead, among running objects, to one that is made as the inner outline says. -/
theorem Instantiates.reach {turns : List Turn} (h : g.Instantiates object o) (hl : Leads o turns inner) :
    ∃ reached, g.reach? object turns = some reached ∧ g.Instantiates reached inner := by
  induction hl generalizing object with
  | here o => exact ⟨object,rfl,h⟩
  | value hp hc typed hl ih =>
    obtain ⟨next,hheld,hnext⟩ := h.value hp hc typed
    rw [reach?_value hheld]
    exact ih hnext
  | element hp hlist untyped hc hl ih =>
    obtain ⟨items,next,hheld,hitem,hnext⟩ := h.element hp hlist untyped hc
    rw [reach?_element hheld hitem]
    exact ih hnext
  | child hc hl ih =>
    obtain ⟨items,next,hheld,hitem,hnext⟩ := h.child hc
    rw [reach?_child hheld hitem]
    exact ih hnext

/-! Steps from a cursor at an object. -/

variable {cursor : Cursor} {holder : Nat} {name : String} {names : List String} {rest : List PathStep}

/-- A dotted name leads to the property that it ends with. -/
lemma target?_names (ownerType : String) (rest : List PathStep)
    (hcursor : g.objectAt? cursor = some object) (hplace : g.place? object names = some (holder,name)) :
    g.target? cursor (nameSteps names ownerType ++ rest) =
      if rest.isEmpty then some ⟨holder, name, none⟩ else g.target? (.property holder name) rest := by
  induction names generalizing cursor object with
  | nil => cases hplace
  | cons first names ih =>
    rw [nameSteps,List.map_cons,List.cons_append,target?,hcursor]
    cases names with
    | nil =>
      simp only [place?] at hplace
      split at hplace
      · rename_i hhas
        cases hplace
        simp [hhas]
      · cases hplace
    | cons second names =>
      rw [place?,Option.bind_eq_some_iff] at hplace
      obtain ⟨value,hvalue,hplace⟩ := hplace
      have hhas : g.hasProperty object first := by
        obtain ⟨held,hheld,-⟩ := Option.bind_eq_some_iff.mp hvalue
        simp [hasProperty,hheld]
      have hnext := @ih _ (.property object first) hvalue hplace
      simpa [hhas,nameSteps] using hnext

/-- An index leads to an element of the list at the cursor. -/
lemma target?_item {items : List Nat} {next : Nat} (hproperty : g.propertyAt? cursor = some (holder,name))
    (hread : g.read? holder name = some (.list items)) (hitem : items[i]? = some next) (hrest : rest ≠ []) :
    g.target? cursor (.index i :: rest) = g.target? (.object next) rest := by
  simp [target?,hproperty,hread,elementAt?,hitem,hrest]

/-- An index after a property with an object leads to that object if it is the first, and nowhere else. -/
lemma target?_index_of_value {value : Nat}
    (hread : g.read? holder name = some (.object (some value))) (hrest : rest ≠ []) :
    g.target? (.property holder name) (.index i :: rest) =
      if i = 0 then g.target? (.object value) rest else none := by
  by_cases hi : i = 0 <;> simp [target?,propertyAt?,hread,elementAt?,hi,hrest]

end LiveGraph

def Turn.isValue : Turn → Bool
  | .value _ => true
  | _ => false

def Turn.isChild : Turn → Bool
  | .child _ => true
  | _ => false

/-- No turn to the value of a property goes on to an object without a name in that value. -/
def Turn.Separate (turns : List Turn) : Prop := turns.IsChain fun t u => ¬(t.isValue ∧ u.isChild)

/-- Turns that are not separate are so up to the first value that they go on from in this way. -/
lemma Turn.separate_or_crosses (turns : List Turn) : Turn.Separate turns ∨
    ∃ before q i after, turns = before ++ .value q :: .child i :: after ∧ Turn.Separate before := by
  induction turns with
  | nil => exact .inl .nil
  | cons t turns ih =>
    by_cases hcross : ∀ u ∈ turns.head?, ¬(t.isValue ∧ u.isChild)
    · obtain separate | ⟨before,q,i,after,rfl,separate⟩ := ih
      · exact .inl (List.isChain_cons.mpr ⟨hcross,separate⟩)
      · refine .inr ⟨t :: before,q,i,after,rfl,List.isChain_cons.mpr ⟨fun u hu => hcross u ?_,separate⟩⟩
        cases before with
        | nil => cases hu
        | cons u' before => exact hu
    · simp only [not_forall,not_not] at hcross
      obtain ⟨u,hu,hvalue,hchild⟩ := hcross
      obtain ⟨after,rfl⟩ := List.head?_eq_some_iff.mp hu
      cases t with
      | value q =>
        cases u with
        | child i => exact .inr ⟨[],q,i,after,rfl,.nil⟩
        | value => cases hchild
        | element => cases hchild
      | element => cases hvalue
      | child => cases hvalue

lemma Leads.split {o inner : Outline} {turns later : List Turn} (h : Leads o (turns ++ later) inner) :
    ∃ between, Leads o turns between ∧ Leads between later inner := by
  induction turns generalizing o with
  | nil => exact ⟨o,.here o,h⟩
  | cons t turns ih =>
    cases h with
    | value hp hc typed h =>
      obtain ⟨between,hturns,hlater⟩ := ih h
      exact ⟨between,.value hp hc typed hturns,hlater⟩
    | element hp hlist untyped hc h =>
      obtain ⟨between,hturns,hlater⟩ := ih h
      exact ⟨between,.element hp hlist untyped hc hturns,hlater⟩
    | child hc h =>
      obtain ⟨between,hturns,hlater⟩ := ih h
      exact ⟨between,.child hc hturns,hlater⟩

namespace LiveGraph

variable {g : LiveGraph} {object : Nat} {o inner : Outline}

/-- Separate turns lead the steps made from them to where they lead themselves. -/
lemma target?_turns {turns : List Turn} (h : g.Instantiates object o) (hl : Leads o turns inner)
    (separate : Turn.Separate turns) {cursor : Cursor} (hcursor : g.objectAt? cursor = some object)
    (hfirst : cursor = .object object ∨ ∀ t ∈ turns.head?, ¬t.isChild) :
    ∃ cursor' reached, g.reach? object turns = some reached ∧ g.objectAt? cursor' = some reached ∧
      ∀ rest ≠ [], g.target? cursor (turns.flatMap Turn.steps ++ rest) = g.target? cursor' rest := by
  induction hl generalizing object cursor with
  | here o => exact ⟨cursor,object,rfl,hcursor,fun _ _ => rfl⟩
  | @value o c inner p turns hp hc typed hl ih =>
    obtain ⟨next,hheld,hnext⟩ := h.value hp hc typed
    obtain ⟨holder,name,hplace,hread⟩ := place?_of_held? hheld
    obtain ⟨hhead,hlater⟩ := List.isChain_cons.mp separate
    have hvalue : g.objectAt? (.property holder name) = some next := by
      simp [objectAt?,hread,LiveValue.asObject?]
    obtain ⟨cursor',reached,hreach,hreached,htarget⟩ := ih hnext hlater hvalue
      (.inr fun t ht hchild => hhead t ht ⟨rfl,hchild⟩)
    refine ⟨cursor',reached,(reach?_value hheld turns).trans hreach,hreached,fun rest hrest => ?_⟩
    rw [List.flatMap_cons,Turn.steps,List.append_assoc,target?_names _ _ hcursor hplace,
      if_neg (by simp [hrest]),htarget rest hrest]
  | @element o list c inner p i turns hp hlist untyped hc hl ih =>
    obtain ⟨items,next,hheld,hitem,hnext⟩ := h.element hp hlist untyped hc
    obtain ⟨holder,name,hplace,hread⟩ := place?_of_held? hheld
    obtain ⟨-,hlater⟩ := List.isChain_cons.mp separate
    obtain ⟨cursor',reached,hreach,hreached,htarget⟩ := ih hnext hlater rfl (.inl rfl)
    refine ⟨cursor',reached,(reach?_element hheld hitem turns).trans hreach,hreached,fun rest hrest => ?_⟩
    rw [List.flatMap_cons,Turn.steps,List.append_assoc,List.append_assoc,
      target?_names _ _ hcursor hplace,if_neg (by simp),List.singleton_append,
      target?_item rfl hread hitem (by simp [hrest]),htarget rest hrest]
  | @child o c inner i turns hc hl ih =>
    obtain ⟨items,next,hheld,hitem,hnext⟩ := h.child hc
    obtain ⟨name,hname,hread⟩ := Option.bind_eq_some_iff.mp hheld
    obtain ⟨-,hlater⟩ := List.isChain_cons.mp separate
    obtain ⟨cursor',reached,hreach,hreached,htarget⟩ := ih hnext hlater rfl (.inl rfl)
    obtain rfl : cursor = .object object := hfirst.resolve_right fun hno => hno (.child i) rfl rfl
    have hproperty : g.propertyAt? (.object object) = some (object,name) := by
      simp [propertyAt?,hname]
    refine ⟨cursor',reached,(reach?_child hheld hitem turns).trans hreach,hreached,fun rest hrest => ?_⟩
    rw [List.flatMap_cons,Turn.steps,List.append_assoc,List.singleton_append,
      target?_item hproperty hread hitem (by simp [hrest]),htarget rest hrest]

lemma reach?_append (g : LiveGraph) (object : Nat) (turns later : List Turn) :
    g.reach? object (turns ++ later) = (g.reach? object turns).bind fun next => g.reach? next later := by
  induction turns generalizing object with
  | nil => rfl
  | cons t turns ih =>
    rw [List.cons_append,reach?,reach?,Option.bind_assoc]
    congr 1
    funext next
    exact ih next

/-- Where turns go on from a value to an object without a name in it, the steps made from them stay at the
value, or lead nowhere. -/
lemma target?_crossing {before after : List Turn} {q : OutlineProperty Outline} {i : Nat}
    (h : g.Instantiates object o) (hl : Leads o (before ++ .value q :: .child i :: after) inner)
    (separate : Turn.Separate before) :
    ∃ value, g.reach? object (before ++ [.value q]) = some value ∧ ∀ rest ≠ [],
      g.target? (.object object) ((before ++ .value q :: .child i :: after).flatMap Turn.steps ++ rest) =
        if i = 0 then g.target? (.object value) (after.flatMap Turn.steps ++ rest) else none := by
  obtain ⟨between,hbefore,hafter⟩ := hl.split
  obtain ⟨cursor,reached,hreach,hcursor,htarget⟩ := target?_turns h hbefore separate rfl (.inl rfl)
  obtain ⟨reached',hreach',hbetween⟩ := h.reach hbefore
  obtain rfl := Option.some.inj (hreach.symm.trans hreach')
  cases hafter with
  | value hq hc typed hrest =>
    obtain ⟨value,hheld,-⟩ := hbetween.value hq hc typed
    obtain ⟨holder,name,hplace,hread⟩ := place?_of_held? hheld
    refine ⟨value,?_,fun rest hrest => ?_⟩
    · rw [reach?_append,hreach,Option.bind_some,reach?_value hheld]
      rfl
    · rw [List.flatMap_append,List.append_assoc,htarget _ (by simp [Turn.steps]),List.flatMap_cons,
        List.flatMap_cons,Turn.steps,Turn.steps,List.append_assoc,target?_names _ _ hcursor hplace,
        if_neg (by simp),List.append_assoc,List.singleton_append,
        target?_index_of_value hread (by simp [hrest])]

lemma place?_last {holder : Nat} {name : String} {names : List String}
    (h : g.place? object names = some (holder,name)) : names.getLast? = some name := by
  induction names generalizing object with
  | nil => cases h
  | cons first names ih =>
    cases names with
    | nil =>
      simp only [place?] at h
      split at h
      · cases h
        rfl
      · cases h
    | cons second names =>
      rw [place?,Option.bind_eq_some_iff] at h
      obtain ⟨value,-,h⟩ := h
      rw [List.getLast?_cons_cons]
      exact ih h

end LiveGraph

/-- What a new path with these steps is connected to, followed from an object. -/
def LivePath.connected? (steps : List PathStep) (g : LiveGraph) (object : Nat) : Option LiveTarget :=
  let (path, g) := ({ steps } : LivePath).traverse g object
  (path.connection? g).map Connection.target

lemma LivePath.connected?_eq (steps : List PathStep) (g : LiveGraph) (object : Nat) :
    LivePath.connected? steps g object = g.target? (.object object) steps := by
  unfold connected? traverse
  cases g.target? (.object object) steps with
  | none => rfl
  | some target =>
    simp [LiveGraph.connectTo,disconnect,connection?,FiniteMap.get?_insert]

/-- A path is found where a property of a document starts. Followed from an object that is made as the
outline says, it is connected to that property on the object at the same place, as long as it does not
go from the value of a property to an object without a name in that value. Where it first does, it stays
at the value if that object comes first, and is not connected if it comes later. -/
theorem found_path_connects {source : String} {r : Parse} {o inner : Outline}
    {turns : List Turn} {p : OutlineProperty Outline} {d : DeclaredProperty}
    (h : parse? .qml source = some r) (ho : r.root.outline? = some o) (hl : Leads o turns inner)
    (hp : p ∈ inner.properties) (hposition : d.position = p.start) (hchain : d.chain = p.name) :
    ∃ f, o.find? d = some f ∧ f.steps = turns.flatMap Turn.steps ++ nameSteps p.name p.ownerType ∧
      ∀ (g : LiveGraph) (object : Nat), g.Instantiates object o → ∃ reached holder name,
        g.reach? object turns = some reached ∧ g.place? reached p.name = some (holder,name) ∧
        p.name.getLast? = some name ∧
        (Turn.Separate turns ∧ LivePath.connected? f.steps g object = some ⟨holder, name, none⟩ ∨
        ∃ before q i after value, turns = before ++ .value q :: .child i :: after ∧
          Turn.Separate before ∧ g.reach? object (before ++ [.value q]) = some value ∧
          LivePath.connected? f.steps g object =
            if i = 0 then LivePath.connected?
              (after.flatMap Turn.steps ++ nameSteps p.name p.ownerType) g value
            else none) := by
  have hlaid := (Grammar.sound_of_parse? h).outline_laid ho
  refine ⟨_,(Outline.find?_of_leads hlaid hl hp hposition hchain).1,rfl,fun g object hinst => ?_⟩
  obtain ⟨reached,hreach,hreached⟩ := hinst.reach hl
  obtain ⟨holder,name,hplace⟩ := hreached.place hp
  have hname : p.name ≠ [] := by
    intro hnil
    rw [hnil] at hplace
    cases hplace
  have hsteps : nameSteps p.name p.ownerType ≠ [] := by simpa [nameSteps] using hname
  refine ⟨reached,holder,name,hreach,hplace,LiveGraph.place?_last hplace,?_⟩
  obtain separate | ⟨before,q,i,after,rfl,separate⟩ := Turn.separate_or_crosses turns
  · obtain ⟨cursor,reached',hreach',hcursor,htarget⟩ :=
      LiveGraph.target?_turns hinst hl separate rfl (.inl rfl)
    obtain rfl := Option.some.inj (hreach.symm.trans hreach')
    have hnames := LiveGraph.target?_names p.ownerType [] hcursor hplace
    refine .inl ⟨separate,?_⟩
    rw [LivePath.connected?_eq,htarget _ hsteps]
    simpa using hnames
  · obtain ⟨value,hvalue,htarget⟩ := LiveGraph.target?_crossing hinst hl separate
    refine .inr ⟨before,q,i,after,value,rfl,separate,hvalue,?_⟩
    rw [LivePath.connected?_eq,LivePath.connected?_eq,htarget _ hsteps]

/-- An object with a second as the value of a property, which holds a third without a name. The last two
have the same property. -/
def nestedSource : String := "A\x7bb:B\x7bc:2;C\x7bc:1\x7d\x7d\x7d"

/-- The outline has the shape of the nested source, with the two properties where they start there. -/
def Outline.isNested : Outline → Bool
  | .mk _ _ _ [⟨["b"],_,_,_,_,_,some (.mk _ "B" _ [⟨["c"],_,_,6,_,_,none⟩]
      [.mk _ _ _ [⟨["c"],_,_,12,_,_,none⟩] []])⟩] [] => true
  | _ => false

/-- The objects of the nested source. -/
def nestedObjects : LiveGraph where
  objects := [
    { typeName := "A", values := ⟨[("b",.object (some 1))],by simp⟩ },
    { typeName := "B", defaultProperty := "data"
      values := ⟨[("data",.list [2]),("c",.undefined)],by simp⟩ },
    { typeName := "C", values := ⟨[("c",.undefined)],by simp⟩ }]

lemma nestedObjects_instantiate : ∃ r first second third border inner color,
    parse? .qml nestedSource = some r ∧ r.root.outline? = some first ∧
    nestedObjects.Instantiates 0 first ∧ Leads first [.value border] second ∧
    Leads first [.value border,.child 0] third ∧ border.name = ["b"] ∧
    inner ∈ second.properties ∧ inner.name = ["c"] ∧ inner.start = 6 ∧
    color ∈ third.properties ∧ color.name = ["c"] ∧ color.start = 12 := by
  have hsource : (parse? .qml nestedSource).any fun r => r.root.outline?.any Outline.isNested := by
    decide +kernel
  obtain ⟨r,hr,hroot⟩ := (Option.any_eq_true _ _).mp hsource
  obtain ⟨o,ho,hshape⟩ := (Option.any_eq_true _ _).mp hroot
  unfold Outline.isNested at hshape
  split at hshape
  case h_2 => cases hshape
  case h_1 nodeA typeA spanA ownerA declaredA startA valueA stopA nodeB spanB ownerB declaredB valueB
      stopB nodeC typeC spanC ownerC declaredC valueC stopC =>
    let color : OutlineProperty Outline := ⟨["c"],ownerC,declaredC,12,valueC,stopC,none⟩
    let third : Outline := .mk nodeC typeC spanC [color] []
    let inner : OutlineProperty Outline := ⟨["c"],ownerB,declaredB,6,valueB,stopB,none⟩
    let second : Outline := .mk nodeB "B" spanB [inner] [third]
    let border : OutlineProperty Outline := ⟨["b"],ownerA,declaredA,startA,valueA,stopA,some second⟩
    have hthird : nestedObjects.Instantiates 2 third := by
      rw [LiveGraph.Instantiates]
      refine ⟨fun p hp => ?_,fun hne => absurd rfl hne⟩
      obtain rfl := List.mem_singleton.mp hp
      exact ⟨.undefined,rfl,trivial⟩
    have hsecond : nestedObjects.Instantiates 1 second := by
      rw [LiveGraph.Instantiates]
      refine ⟨fun p hp => ?_,fun _ => ⟨[2],rfl,fun i hi => ?_⟩⟩
      · obtain rfl := List.mem_singleton.mp hp
        exact ⟨.undefined,rfl,trivial⟩
      · obtain rfl : i = 0 := Nat.lt_one_iff.mp hi
        exact ⟨2,rfl,hthird⟩
    have hfirst : nestedObjects.Instantiates 0 (.mk nodeA typeA spanA [border] []) := by
      rw [LiveGraph.Instantiates]
      refine ⟨fun p hp => ?_,fun hne => absurd rfl hne⟩
      obtain rfl := List.mem_singleton.mp hp
      exact ⟨.object (some 1),rfl,1,rfl,hsecond⟩
    have typed : "B" ≠ "" := by decide
    have hborder := List.mem_singleton_self border
    exact ⟨r,_,second,third,border,inner,color,hr,ho,hfirst,
      .value hborder rfl typed (.here second),.value hborder rfl typed (.child rfl (.here third)),rfl,
      List.mem_singleton_self inner,rfl,rfl,List.mem_singleton_self color,rfl,rfl⟩

/-- The path to the property of the value is connected to it. -/
theorem found_path_connects_value : ∃ r o f, parse? .qml nestedSource = some r ∧
    r.root.outline? = some o ∧ nestedObjects.Instantiates 0 o ∧ o.find? (.ofChain ["c"] 6) = some f ∧
    LivePath.connected? f.steps nestedObjects 0 = some ⟨1, "c", none⟩ := by
  obtain ⟨r,o,second,-,border,inner,-,hr,ho,hinst,hl,-,hborder,hinner,hname,hstart,-⟩ :=
    nestedObjects_instantiate
  obtain ⟨f,hf,-,hconnects⟩ := found_path_connects (d := .ofChain ["c"] 6) hr ho hl hinner
    hstart.symm hname.symm
  obtain ⟨reached,holder,name,hreach,hplace,-,⟨-,hconnected⟩ | ⟨before,q,i,after,-,hturns,-⟩⟩ :=
    hconnects nestedObjects 0 hinst
  · have hone : nestedObjects.reach? 0 [.value border] = some 1 := by
      simp only [LiveGraph.reach?,LiveGraph.turn?,hborder]
      rfl
    obtain rfl := Option.some.inj (hone.symm.trans hreach)
    rw [hname] at hplace
    obtain ⟨rfl,rfl⟩ := Prod.mk.inj (Option.some.inj hplace)
    exact ⟨r,o,f,hr,ho,hinst,hf,hconnected⟩
  · have hlength := congrArg List.length hturns
    simp only [List.length_cons,List.length_append,List.length_nil] at hlength
    omega

/-- The path to the property of the object without a name is connected to that of the value too. -/
theorem found_path_stays_at_value : ∃ r o inner turns p f, parse? .qml nestedSource = some r ∧
    r.root.outline? = some o ∧ nestedObjects.Instantiates 0 o ∧ Leads o turns inner ∧
    p ∈ inner.properties ∧ p.name = ["c"] ∧ p.start = 12 ∧ nestedObjects.reach? 0 turns = some 2 ∧
    nestedObjects.place? 2 p.name = some (2,"c") ∧ o.find? (.ofChain ["c"] 12) = some f ∧
    LivePath.connected? f.steps nestedObjects 0 = some ⟨1, "c", none⟩ := by
  obtain ⟨r,o,-,third,border,-,color,hr,ho,hinst,-,hl,hborder,-,-,-,hcolor,hname,hstart⟩ :=
    nestedObjects_instantiate
  have hlaid := (Grammar.sound_of_parse? hr).outline_laid ho
  have hfind := (Outline.find?_of_leads (d := .ofChain ["c"] 12) hlaid hl hcolor hstart.symm hname.symm).1
  refine ⟨r,o,third,_,color,_,hr,ho,hinst,hl,hcolor,hname,hstart,?_,?_,hfind,?_⟩
  · simp only [LiveGraph.reach?,LiveGraph.turn?,hborder]
    rfl
  · rw [hname]
    rfl
  · rw [LivePath.connected?_eq,List.flatMap_cons,Turn.steps,hborder,hname]
    rfl

end QmlCodeModel
