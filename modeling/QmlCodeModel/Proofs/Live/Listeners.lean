import Mathlib.Data.List.Nodup
import QmlCodeModel.Live.Path

/-! Who listens to the properties of running objects, and who is called by a write where nobody writes on. -/
namespace QmlCodeModel

namespace LiveObject

variable {o o' : LiveObject} {property : String} {handle : Nat} {l : Listener}

lemma listenersTo_of_connect? (h : o.connect? property l = some (handle,o')) (q : String) :
    o'.listenersTo q = o.listenersTo q ++ if q = property then [(handle,l)] else [] := by
  unfold connect? at h
  split at h
  · cases h
    change Option.getD (FiniteMap.get? _ q) [] = _
    rw [FiniteMap.get?_insert]
    by_cases hq : q = property
    · rw [if_pos hq,if_pos hq,hq]
      rfl
    · rw [if_neg hq,if_neg hq,List.append_nil]
      rfl
  · cases h

lemma nextHandle_of_connect? (h : o.connect? property l = some (handle,o')) :
    handle = o.nextHandle ∧ o'.nextHandle = o.nextHandle + 1 := by
  unfold connect? at h
  split at h
  · cases h
    exact ⟨rfl,rfl⟩
  · cases h

/-- Only the listener with the handle goes, whether or not others stay. -/
lemma listenersTo_disconnect (o : LiveObject) (property : String) (handle : Nat) (q : String) :
    (o.disconnect property handle).listenersTo q =
      if q = property then (o.listenersTo property).filter (·.1 ≠ handle) else o.listenersTo q := by
  unfold disconnect
  change Option.getD (FiniteMap.get? _ q) [] = _
  split
  · rename_i hnone
    rw [FiniteMap.get?_erase]
    by_cases hq : q = property
    · rw [if_pos hq,if_pos hq,hnone]
      rfl
    · rw [if_neg hq,if_neg hq]
      rfl
  · rw [FiniteMap.get?_insert]
    by_cases hq : q = property
    · rw [if_pos hq,if_pos hq]
      rfl
    · rw [if_neg hq,if_neg hq]
      rfl

end LiveObject

namespace LiveGraph

variable {g g' : LiveGraph} {object handle : Nat} {property : String} {l : Listener} {value : LiveValue}

/-- Those that listen to a property, by their handles. -/
def listenersAt (g : LiveGraph) (object : Nat) (property : String) : List (Nat × Listener) :=
  ((g.object? object).map (·.listenersTo property)).getD []

/-- The handle that an object gives out next. -/
def nextHandleAt (g : LiveGraph) (object : Nat) : Nat :=
  ((g.object? object).map LiveObject.nextHandle).getD 0

lemma listenerCount_eq (g : LiveGraph) (object : Nat) (property : String) :
    g.listenerCount object property = (g.listenersAt object property).length := by
  unfold listenerCount listenersAt
  cases g.object? object <;> rfl

/-- Who is called through a listener. -/
def observersBehind (g : LiveGraph) : Listener → List Observer
  | .observer o => [o]
  | .connection number => ((g.connections.get? number).map Connection.subscribers).getD []

lemma observersOf_eq (g : LiveGraph) (object : Nat) (property : String) :
    g.observersOf object property = (g.listenersAt object property).flatMap fun e => g.observersBehind e.2 := by
  unfold observersOf listenersAt
  congr 1
  funext e
  obtain ⟨handle,o | number⟩ := e <;> rfl

/-- One more listens to a property, under a handle that was not given out before. -/
structure Joins (g g' : LiveGraph) (object : Nat) (property : String) (handle : Nat) (l : Listener) :
    Prop where
  fresh : g.nextHandleAt object = handle
  next : ∀ i, g'.nextHandleAt i = if i = object then handle + 1 else g.nextHandleAt i
  listeners : ∀ i q, g'.listenersAt i q =
    g.listenersAt i q ++ if i = object ∧ q = property then [(handle,l)] else []

/-- Nothing but the objects is different. -/
structure SameConnections (g g' : LiveGraph) : Prop where
  connections : g'.connections = g.connections
  nextConnection : g'.nextConnection = g.nextConnection

lemma connect_cases (g : LiveGraph) (object : Nat) (property : String) (l : Listener) :
    (∃ handle g', g.connect object property l = (some handle,g') ∧ g.Joins g' object property handle l ∧
      g.SameConnections g') ∨ g.connect object property l = (none,g) := by
  unfold connect
  cases hjoin : (g.object? object).bind (·.connect? property l) with
  | none => exact .inr rfl
  | some entry =>
    obtain ⟨handle,o'⟩ := entry
    obtain ⟨o,ho,ho'⟩ := Option.bind_eq_some_iff.mp hjoin
    obtain ⟨hhandle,hnext⟩ := LiveObject.nextHandle_of_connect? ho'
    obtain ⟨hlt,-⟩ := List.getElem?_eq_some_iff.mp ho
    have hobject (i : Nat) : (g.objects.set object o')[i]? = if i = object then some o' else g.object? i := by
      rw [List.getElem?_set]
      by_cases hi : object = i
      · subst hi
        simp [hlt]
      · rw [if_neg hi,if_neg (Ne.symm hi)]
        rfl
    refine .inl ⟨handle,_,rfl,⟨?_,fun i => ?_,fun i q => ?_⟩,⟨rfl,rfl⟩⟩
    · rw [nextHandleAt,ho]
      exact hhandle.symm
    · rw [nextHandleAt,object?,hobject]
      by_cases hi : i = object
      · rw [if_pos hi,if_pos hi,hhandle]
        exact hnext
      · rw [if_neg hi,if_neg hi]
        rfl
    · rw [listenersAt,object?,hobject]
      by_cases hi : i = object
      · subst hi
        rw [if_pos rfl,listenersAt,ho]
        simpa using LiveObject.listenersTo_of_connect? ho' q
      · rw [if_neg hi,if_neg fun h => hi h.1,List.append_nil]
        rfl

lemma connectTo_of_connect {target : LiveTarget} {given : Option Nat}
    (h : g.connect target.object target.property (.connection g.nextConnection) = (given,g')) :
    (g.connectTo target).2 = { g' with
      connections := g'.connections.insert g.nextConnection { target, handle := given }
      nextConnection := g.nextConnection + 1 } := by
  unfold connectTo
  dsimp only
  rw [h]

lemma object?_modify (g : LiveGraph) (object : Nat) (f : LiveObject → LiveObject) (i : Nat) :
    { g with objects := g.objects.modify object f }.object? i =
      if i = object then (g.object? i).map f else g.object? i := by
  rw [object?,List.getElem?_modify]
  by_cases hi : object = i
  · rw [if_pos hi.symm]
    simp [hi,object?]
  · rw [if_neg (Ne.symm hi)]
    simp [hi,object?]

/-- A change of an object that leaves a field as it is. -/
lemma map_object?_modify {α : Type} {f : LiveObject → LiveObject} {field : LiveObject → α}
    (h : ∀ o, field (f o) = field o) (g : LiveGraph) (object i : Nat) :
    ({ g with objects := g.objects.modify object f }.object? i).map field = (g.object? i).map field := by
  rw [object?_modify]
  split
  · rw [Option.map_map]
    exact congrFun (congrArg _ (funext h)) _
  · rfl

lemma listenersAt_disconnect (g : LiveGraph) (object : Nat) (property : String) (handle i : Nat) (q : String) :
    (g.disconnect object property handle).listenersAt i q =
      if i = object ∧ q = property then (g.listenersAt i q).filter (·.1 ≠ handle) else g.listenersAt i q := by
  rw [listenersAt,disconnect,object?_modify]
  by_cases hi : i = object
  · rw [if_pos hi,listenersAt]
    cases g.object? i with
    | none => split <;> rfl
    | some o =>
      by_cases hq : q = property
      · subst hq
        rw [if_pos ⟨hi,rfl⟩]
        simp [LiveObject.listenersTo_disconnect]
      · rw [if_neg fun h => hq h.2]
        simp [LiveObject.listenersTo_disconnect,hq]
  · rw [if_neg hi,if_neg fun h => hi h.1]
    rfl

lemma nextHandleAt_disconnect (g : LiveGraph) (object : Nat) (property : String) (handle i : Nat) :
    (g.disconnect object property handle).nextHandleAt i = g.nextHandleAt i := by
  rw [nextHandleAt,disconnect,map_object?_modify,nextHandleAt]
  exact fun _ => rfl

/-- Only one value is different. -/
structure Assigned (g g' : LiveGraph) (object : Nat) (property : String) (value : LiveValue) : Prop where
  values : ∀ i q, g'.read? i q = if i = object ∧ q = property then some value else g.read? i q
  listeners : ∀ i q, g'.listenersAt i q = g.listenersAt i q
  next : ∀ i, g'.nextHandleAt i = g.nextHandleAt i
  typeNames : ∀ i, g'.typeName i = g.typeName i
  defaults : ∀ i, g'.defaultProperty? i = g.defaultProperty? i
  same : g.SameConnections g'

lemma set?_cases (g : LiveGraph) (object : Nat) (property : String) (value : LiveValue) :
    (g.hasProperty object property = true ∧
      ∃ g', g.set? object property value = some g' ∧ g.Assigned g' object property value) ∨
    (g.hasProperty object property = false ∧ g.set? object property value = none) := by
  cases hhas : g.hasProperty object property with
  | false => exact .inr ⟨rfl,by rw [set?,hhas]; rfl⟩
  | true =>
    refine .inl ⟨rfl,_,if_pos hhas,
      ⟨fun i q => ?_,fun i q => ?_,fun i => ?_,fun i => ?_,fun i => ?_,⟨rfl,rfl⟩⟩⟩
    · rw [read?,object?_modify]
      by_cases hi : i = object
      · subst hi
        obtain ⟨o,ho⟩ : ∃ o, g.object? i = some o := by
          cases ho : g.object? i with
          | none => simp [hasProperty,read?,ho] at hhas
          | some o => exact ⟨o,rfl⟩
        rw [if_pos rfl,read?,ho]
        change FiniteMap.get? _ q = _
        rw [FiniteMap.get?_insert]
        by_cases hq : q = property
        · rw [if_pos hq,if_pos ⟨rfl,hq⟩]
        · rw [if_neg hq,if_neg fun h => hq h.2]
          rfl
      · rw [if_neg hi,if_neg fun h => hi h.1]
        rfl
    · rw [listenersAt,map_object?_modify,listenersAt]
      exact fun _ => rfl
    · rw [nextHandleAt,map_object?_modify,nextHandleAt]
      exact fun _ => rfl
    · rw [typeName,map_object?_modify,typeName]
      exact fun _ => rfl
    · rw [defaultProperty?,object?_modify,defaultProperty?]
      split
      · cases g.object? i <;> rfl
      · rfl

lemma Assigned.observersOf (h : g.Assigned g' object property value) (i : Nat) (q : String) :
    g'.observersOf i q = g.observersOf i q := by
  have hbehind : g'.observersBehind = g.observersBehind := by
    funext l
    cases l with
    | observer o => rfl
    | connection number => rw [observersBehind,observersBehind,h.same.connections]
  rw [observersOf_eq,observersOf_eq,h.listeners,hbehind]

lemma foldlM_calls {f : Written → Observer → Option Written} {observers : List Observer}
    (hf : ∀ o ∈ observers, ∀ w, f w o = some { w with calls := w.calls ++ [(o.tag,value)] }) (w : Written) :
    observers.foldlM f w = some { w with calls := w.calls ++ observers.map fun o => (o.tag,value) } := by
  induction observers generalizing w with
  | nil => simp
  | cons o rest ih =>
    rw [List.foldlM_cons,hf o List.mem_cons_self]
    refine (ih (fun o ho => hf o (List.mem_cons_of_mem _ ho)) _).trans ?_
    simp

/-- Observers that do not write on are called one after the other. -/
theorem write?_of_forward (hforward : ∀ o ∈ g.observersOf object property, o.forward = none) :
    (g.hasProperty object property = true ∧ ∃ g', g.Assigned g' object property value ∧
      g.write? object property value =
        some ⟨true,g',(g.observersOf object property).map fun o => (o.tag,value)⟩) ∨
    (g.hasProperty object property = false ∧ g.write? object property value = some ⟨false,g,[]⟩) := by
  obtain ⟨hhas,g',hset,hassigned⟩ | ⟨hhas,hset⟩ := g.set?_cases object property value
  · refine .inl ⟨hhas,g',hassigned,?_⟩
    rw [write?,writeWithin,hset]
    dsimp only
    rw [hassigned.observersOf,foldlM_calls fun o ho w => by rw [hforward o ho]]
    rfl
  · refine .inr ⟨hhas,?_⟩
    rw [write?,writeWithin,hset]

end LiveGraph
end QmlCodeModel
