import QmlCodeModel.Proofs.Live.Clients

/-! Paths that are followed more than once. What the steps of a path lead to is said by rules of its own, and
following a path connects it to that. A path whose steps lead nowhere keeps the connection that it has. -/
namespace QmlCodeModel

namespace LiveGraph

variable {g : LiveGraph} {cursor : Cursor} {steps : List PathStep} {target : LiveTarget}

/-- The object at a cursor: the one that it stands on, or the one that its property holds. -/
inductive StandsOn (g : LiveGraph) : Cursor → Nat → Prop
  | object (number : Nat) : StandsOn g (.object number) number
  | value {owner number : Nat} {name : String} (h : g.read? owner name = some (.object (some number))) :
    StandsOn g (.property owner name) number

/-- The property at a cursor: its own, or the default one of the object that it stands on. -/
inductive LooksAt (g : LiveGraph) : Cursor → Nat → String → Prop
  | property (owner : Nat) (name : String) : LooksAt g (.property owner name) owner name
  | default {number : Nat} {name : String} (h : g.defaultProperty? number = some name) :
    LooksAt g (.object number) number name

/-- A value has a place at an index. The only place of a property for an object is the first, and it may be
empty. -/
inductive HasPlace : LiveValue → Nat → Option Nat → Prop
  | object (number : Option Nat) : HasPlace (.object number) 0 number
  | item {items : List Nat} {i number : Nat} (h : items[i]? = some number) :
    HasPlace (.list items) i (some number)

/-- The steps of a path match the running objects one after the other, and lead to a target. -/
inductive Resolves (g : LiveGraph) : Cursor → List PathStep → LiveTarget → Prop
  | property {cursor : Cursor} {object : Nat} {name ownerType : String} (hobject : g.StandsOn cursor object)
    (hhas : g.hasProperty object name) : Resolves g cursor [.property name ownerType] ⟨object, name, none⟩
  | throughProperty {cursor : Cursor} {object : Nat} {name ownerType : String} {rest : List PathStep}
    {target : LiveTarget} (hobject : g.StandsOn cursor object) (hhas : g.hasProperty object name)
    (hrest : Resolves g (.property object name) rest target) :
    Resolves g cursor (.property name ownerType :: rest) target
  | index {cursor : Cursor} {owner i : Nat} {name : String} {value : LiveValue} {number : Option Nat}
    (hproperty : g.LooksAt cursor owner name) (hvalue : g.read? owner name = some value)
    (hplace : HasPlace value i number) : Resolves g cursor [.index i] ⟨owner, name, some i⟩
  | throughIndex {cursor : Cursor} {owner i number : Nat} {name : String} {value : LiveValue}
    {rest : List PathStep} {target : LiveTarget} (hproperty : g.LooksAt cursor owner name)
    (hvalue : g.read? owner name = some value) (hplace : HasPlace value i (some number))
    (hrest : Resolves g (.object number) rest target) : Resolves g cursor (.index i :: rest) target

lemma objectAt?_eq_some_iff {number : Nat} : g.objectAt? cursor = some number ↔ g.StandsOn cursor number := by
  constructor
  · intro h
    cases cursor with
    | object n =>
      obtain rfl := Option.some.inj h
      exact .object n
    | property owner name =>
      obtain ⟨value,hvalue,hobject⟩ := Option.bind_eq_some_iff.mp h
      cases value with
      | object n =>
        cases hobject
        exact .value hvalue
      | _ => cases hobject
  · rintro (_ | h)
    · rfl
    · rw [objectAt?,h]
      rfl

lemma propertyAt?_eq_some_iff {owner : Nat} {name : String} :
    g.propertyAt? cursor = some (owner,name) ↔ g.LooksAt cursor owner name := by
  constructor
  · intro h
    cases cursor with
    | object n =>
      obtain ⟨name',hname,heq⟩ := Option.map_eq_some_iff.mp h
      cases heq
      exact .default hname
    | property owner' name' =>
      cases h
      exact .property owner name
  · rintro (_ | h)
    · rfl
    · rw [propertyAt?,h]
      rfl

lemma elementAt?_eq_some_iff {value : LiveValue} {i : Nat} {number : Option Nat} :
    elementAt? value i = some number ↔ HasPlace value i number := by
  constructor
  · intro h
    cases value with
    | object n =>
      obtain ⟨rfl,rfl⟩ : i = 0 ∧ n = number := by simpa [elementAt?] using h
      exact .object n
    | list items =>
      obtain ⟨n,hn,rfl⟩ := Option.map_eq_some_iff.mp h
      exact .item hn
    | _ => cases h
  · rintro (_ | h)
    · rfl
    · rw [elementAt?,h]
      rfl

/-- The steps lead to what they resolve to, and nowhere else. -/
theorem target?_eq_some_iff : g.target? cursor steps = some target ↔ g.Resolves cursor steps target := by
  constructor
  · intro h
    induction steps generalizing cursor with
    | nil => cases h
    | cons step rest ih =>
      cases step with
      | property name ownerType =>
        simp only [target?,Option.bind_eq_bind,Option.bind_eq_some_iff] at h
        obtain ⟨object,hobject,h⟩ := h
        rw [objectAt?_eq_some_iff] at hobject
        cases hhas : g.hasProperty object name with
        | false => simp [hhas] at h
        | true =>
          cases rest with
          | nil =>
            obtain rfl : _ = target := by simpa [hhas] using h
            exact .property hobject hhas
          | cons next rest => exact .throughProperty hobject hhas (ih (by simpa [hhas] using h))
      | index i =>
        simp only [target?,Option.bind_eq_bind,Option.bind_eq_some_iff] at h
        obtain ⟨⟨owner,name⟩,hproperty,value,hvalue,place,hplace,h⟩ := h
        rw [propertyAt?_eq_some_iff] at hproperty
        rw [elementAt?_eq_some_iff] at hplace
        cases rest with
        | nil =>
          obtain rfl : _ = target := by simpa using h
          exact .index hproperty hvalue hplace
        | cons next rest =>
          obtain ⟨number,rfl,h⟩ : ∃ number, place = some number ∧
            g.target? (.object number) (next :: rest) = some target := by
              simpa [Option.bind_eq_some_iff] using h
          exact .throughIndex hproperty hvalue hplace (ih h)
  · intro h
    have hne {cursor : Cursor} {rest : List PathStep} (h : g.target? cursor rest = some target) :
        rest.isEmpty = false := by
      cases rest with
      | nil => cases h
      | cons => rfl
    induction h with
    | property hobject hhas => simp [target?,objectAt?_eq_some_iff.mpr hobject,hhas]
    | throughProperty hobject hhas hrest ih =>
      have ih := ih hne
      simp [target?,objectAt?_eq_some_iff.mpr hobject,hhas,hne ih,ih]
    | index hproperty hvalue hplace =>
      simp [target?,propertyAt?_eq_some_iff.mpr hproperty,hvalue,elementAt?_eq_some_iff.mpr hplace]
    | throughIndex hproperty hvalue hplace hrest ih =>
      have ih := ih hne
      simp [target?,propertyAt?_eq_some_iff.mpr hproperty,hvalue,elementAt?_eq_some_iff.mpr hplace,hne ih,ih]

lemma nextConnection_connectTo (g : LiveGraph) (target : LiveTarget) :
    (g.connectTo target).2.nextConnection = g.nextConnection + 1 := rfl

lemma target_connectTo (g : LiveGraph) (target : LiveTarget) :
    ((g.connectTo target).2.connections.get? g.nextConnection).map Connection.target = some target := by
  obtain ⟨handle,g',hconnect,-⟩ | hconnect :=
    g.connect_cases target.object target.property (.connection g.nextConnection) <;>
  rw [connectTo_of_connect hconnect,FiniteMap.get?_insert,if_pos rfl] <;>
  rfl

lemma nextConnection_dropConnection (g : LiveGraph) (number : Nat) :
    (g.dropConnection number).nextConnection = g.nextConnection := by
  unfold dropConnection
  cases g.connections.get? number with
  | none => rfl
  | some c => cases c with | mk _ handle _ => cases handle <;> rfl

/-- The other connections are kept. -/
lemma get?_dropConnection (g : LiveGraph) (number n : Nat) :
    (g.dropConnection number).connections.get? n = if n = number then none else g.connections.get? n := by
  unfold dropConnection
  cases hc : g.connections.get? number with
  | none =>
    by_cases hn : n = number
    · rw [if_pos hn,hn]
      exact hc
    · rw [if_neg hn]
  | some c =>
    have hget {connections : FiniteMap Nat Connection} (h : connections = g.connections) :
        (connections.erase number).get? n = if n = number then none else g.connections.get? n := by
      rw [h,FiniteMap.get?_erase]
    cases c with | mk _ handle _ => cases handle <;> exact hget rfl

end LiveGraph

namespace LivePath

variable {g : LiveGraph} {root : Nat}

lemma nextConnection_disconnect (p : LivePath) (g : LiveGraph) :
    (p.disconnect g).2.nextConnection = g.nextConnection := by
  unfold disconnect
  cases p.connection with
  | none => rfl
  | some number => exact g.nextConnection_dropConnection number

lemma traverse_of_none (p : LivePath) (h : g.target? (.object root) p.steps = none) :
    p.traverse g root = (p,g) := by
  rw [traverse,h]

/-- The new connection is there before the old one is given up. -/
lemma traverse_of_target (p : LivePath) {target : LiveTarget}
    (h : g.target? (.object root) p.steps = some target) : p.traverse g root =
      ({ p with connection := some g.nextConnection },(p.disconnect (g.connectTo target).2).2) := by
  rw [traverse,h]
  rfl

/-- What a path is connected to. -/
def connectedTo? (p : LivePath) (g : LiveGraph) : Option LiveTarget := (p.connection? g).map Connection.target

/-- A path has been followed from an object, as it should be. It is connected if its steps lead somewhere, and to
that; and what it was connected by listens no longer. -/
structure Followed (p p' : LivePath) (g g' : LiveGraph) (root : Nat) : Prop where
  steps : p'.steps = p.steps
  connected : p'.isConnected ↔ ∃ target, g.Resolves (.object root) p.steps target
  target : ∀ target, g.Resolves (.object root) p.steps target → p'.connectedTo? g' = some target
  silent : ∀ number, p.connection = some number →
    ∀ object property, ∀ e ∈ g'.listenersAt object property, e.2 ≠ .connection number

end LivePath

namespace LiveScene

open LiveGraph

variable {s : LiveScene} {number path root : Nat} {p : LivePath}

lemma perform_traverse_of_none (hp : s.paths[path]? = none) : s.perform (.traverse path root) = s := by
  unfold perform
  dsimp only
  rw [hp]
  rfl

lemma perform_traverse (hp : s.paths[path]? = some p) : s.perform (.traverse path root) =
    { graph := (p.traverse s.graph root).2
      paths := s.paths.set path (p.traverse s.graph root).1
      history := (s.traversed p root).history } := by
  unfold perform
  dsimp only
  rw [hp]
  rfl

/-- Nobody listens through a connection that is not there. -/
lemma Accounted.silent (h : s.Accounted) (hnone : s.graph.connections.get? number = none) (object : Nat)
    (property : String) : ∀ e ∈ s.graph.listenersAt object property, e.2 ≠ .connection number := by
  intro e he hlistener
  rw [h.listed.listeners] at he
  obtain ⟨r,hr,rfl⟩ := List.mem_map.mp he
  have hthere := (h.linked number).there r (List.mem_filter.mp hr).1 hlistener
  rw [hnone] at hthere
  cases hthere

/-- The connections of paths have been given out. -/
structure Held (s : LiveScene) : Prop extends s.Accounted where
  given : ∀ p ∈ s.paths, ∀ number, p.connection = some number → number < s.graph.nextConnection

namespace Held

/-- A path may be put in the place of another. -/
lemma set {s' : LiveScene} {p' : LivePath} (h : s.Held) (haccounted : s'.Accounted)
    (hpaths : s'.paths = s.paths.set path p') (hnext : s.graph.nextConnection ≤ s'.graph.nextConnection)
    (hp' : ∀ number, p'.connection = some number → number < s'.graph.nextConnection) : s'.Held := by
  refine ⟨haccounted,fun q hq number hnumber => ?_⟩
  rw [hpaths] at hq
  obtain hq | rfl := List.mem_or_eq_of_mem_set hq
  · exact Nat.lt_of_lt_of_le (h.given q hq number hnumber) hnext
  · exact hp' number hnumber

lemma keep {s' : LiveScene} (h : s.Held) (haccounted : s'.Accounted) (hpaths : s'.paths = s.paths)
    (hnext : s.graph.nextConnection ≤ s'.graph.nextConnection) : s'.Held :=
  ⟨haccounted,fun q hq number hnumber => Nat.lt_of_lt_of_le (h.given q (hpaths ▸ hq) number hnumber) hnext⟩

lemma traverse (h : s.Held) (path root : Nat) : (s.perform (.traverse path root)).Held := by
  have haccounted := h.toAccounted.perform (.traverse path root)
  cases hp : s.paths[path]? with
  | none => rwa [perform_traverse_of_none hp]
  | some p =>
    rw [perform_traverse hp] at *
    cases hfound : s.graph.target? (.object root) p.steps with
    | none =>
      rw [p.traverse_of_none hfound] at *
      exact h.set haccounted rfl (Nat.le_refl _) (h.given p (List.mem_of_getElem? hp))
    | some target =>
      have hnext := p.nextConnection_disconnect (s.graph.connectTo target).2
      rw [nextConnection_connectTo] at hnext
      rw [p.traverse_of_target hfound] at *
      refine h.set haccounted rfl ?_ fun number hnumber => ?_
      · exact Nat.le_of_lt (Nat.lt_of_succ_le (Nat.le_of_eq hnext.symm))
      · obtain rfl := Option.some.inj hnumber
        exact Nat.lt_of_succ_le (Nat.le_of_eq hnext.symm)

/-- One call gives out new connections only. -/
theorem perform (h : s.Held) (call : ClientCall) : (s.perform call).Held := by
  have haccounted := h.toAccounted.perform call
  cases call with
  | connect object property tag =>
    have hnext : (s.graph.connect object property (.observer { tag })).2.nextConnection =
        s.graph.nextConnection := by
      obtain ⟨handle,g',hconnect,-,hsame⟩ | hconnect := s.graph.connect_cases object property (.observer { tag })
      · rw [hconnect]
        exact hsame.nextConnection
      · rw [hconnect]
    exact h.keep haccounted rfl (Nat.le_of_eq hnext.symm)
  | disconnect object property handle => exact h.keep haccounted rfl (Nat.le_refl _)
  | write object property value =>
    refine h.keep haccounted rfl ?_
    unfold LiveScene.perform
    dsimp only
    obtain ⟨-,g',hassigned,hwrite⟩ | ⟨-,hwrite⟩ := h.write?_eq object property value <;> rw [hwrite]
    · exact Nat.le_of_eq hassigned.same.nextConnection.symm
    · exact Nat.le_refl _
  | create target => exact h.keep haccounted rfl (Nat.le_succ _)
  | subscribe number tag => exact h.keep haccounted rfl (Nat.le_refl _)
  | drop number => exact h.keep haccounted rfl (Nat.le_of_eq (s.graph.nextConnection_dropConnection number).symm)
  | traverse path root => exact h.traverse path root
  | leave path =>
    unfold LiveScene.perform at *
    dsimp only at *
    cases hp : s.paths[path]? with
    | none => exact h
    | some p =>
      rw [hp] at haccounted
      rw [Option.elim_some] at *
      refine h.set haccounted rfl (Nat.le_of_eq (p.nextConnection_disconnect s.graph).symm) fun number hnumber => ?_
      cases hnumber
  | subscribePath path tag =>
    unfold LiveScene.perform at *
    dsimp only at *
    cases hp : s.paths[path]? with
    | none => exact h
    | some p =>
      rw [hp] at haccounted
      rw [Option.elim_some] at *
      refine h.keep haccounted rfl ?_
      unfold LivePath.subscribe
      cases p.connection <;> exact Nat.le_refl _

theorem run (h : s.Held) (calls : List ClientCall) : (s.run calls).Held := by
  induction calls generalizing s with
  | nil => exact h
  | cons call rest ih => exact ih (h.perform call)

/-- A path whose steps lead somewhere is followed as it should be. -/
lemma followed (h : s.Held) (hp : s.paths[path]? = some p) {target : LiveTarget}
    (htarget : s.graph.Resolves (.object root) p.steps target) :
    p.Followed (p.traverse s.graph root).1 s.graph (s.perform (.traverse path root)).graph root := by
  have hfound := target?_eq_some_iff.mpr htarget
  have htraverse := p.traverse_of_target hfound
  have hgraph : (s.perform (.traverse path root)).graph = (p.disconnect (s.graph.connectTo target).2).2 := by
    rw [perform_traverse hp,htraverse]
  refine ⟨?_,?_,fun target' htarget' => ?_,fun number hnumber => ?_⟩
  · rw [htraverse]
  · rw [htraverse]
    exact ⟨fun _ => ⟨target,htarget⟩,fun _ => rfl⟩
  · obtain rfl := Option.some.inj (hfound.symm.trans (target?_eq_some_iff.mpr htarget'))
    rw [hgraph,htraverse]
    refine Eq.trans (congrArg (Option.map _) ?_) (s.graph.target_connectTo target)
    unfold LivePath.disconnect
    cases hconnection : p.connection with
    | none => rfl
    | some number =>
      have hne := Nat.ne_of_gt (h.given p (List.mem_of_getElem? hp) number hconnection)
      exact (get?_dropConnection _ number _).trans (if_neg hne)
  · refine (h.perform (.traverse path root)).silent ?_
    rw [hgraph,LivePath.disconnect,hnumber]
    exact (get?_dropConnection _ number number).trans (if_pos rfl)

end Held

lemma Fresh.held (h : s.Fresh) (hunconnected : ∀ p ∈ s.paths, p.isConnected = false) : s.Held := by
  refine ⟨h.accounted,fun p hp number hnumber => ?_⟩
  have hno := hunconnected p hp
  rw [LivePath.isConnected,hnumber] at hno
  cases hno

/-- Whatever clients have done: a path is followed as it should be exactly if its steps lead somewhere or it was
not connected. Otherwise nothing happens, and the path stays connected as it was. -/
theorem traverse_followed_iff (hs : s.Fresh) (hunconnected : ∀ p ∈ s.paths, p.isConnected = false)
    (calls : List ClientCall) (hp : (s.run calls).paths[path]? = some p) (root : Nat) :
    ∃ p', ((s.run calls).perform (.traverse path root)).paths[path]? = some p' ∧
      (p.Followed p' (s.run calls).graph ((s.run calls).perform (.traverse path root)).graph root ↔
        (∃ target, (s.run calls).graph.Resolves (.object root) p.steps target) ∨ p.isConnected = false) ∧
      ((¬∃ target, (s.run calls).graph.Resolves (.object root) p.steps target) →
        p' = p ∧ ((s.run calls).perform (.traverse path root)).graph = (s.run calls).graph) := by
  have h := (hs.held hunconnected).run calls
  generalize s.run calls = s' at *
  obtain ⟨hpath,-⟩ := List.getElem?_eq_some_iff.mp hp
  refine ⟨(p.traverse s'.graph root).1,?_,?_⟩
  · rw [perform_traverse hp]
    exact List.getElem?_set_self hpath
  by_cases hresolves : ∃ target, s'.graph.Resolves (.object root) p.steps target
  · obtain ⟨target,htarget⟩ := hresolves
    exact ⟨⟨fun _ => .inl ⟨target,htarget⟩,fun _ => h.followed hp htarget⟩,
      fun hno => absurd ⟨target,htarget⟩ hno⟩
  · have hnone : s'.graph.target? (.object root) p.steps = none := by
      cases hfound : s'.graph.target? (.object root) p.steps with
      | none => rfl
      | some target => exact absurd ⟨target,target?_eq_some_iff.mp hfound⟩ hresolves
    have htraverse := p.traverse_of_none hnone
    have hgraph : (s'.perform (.traverse path root)).graph = s'.graph := by
      rw [perform_traverse hp,htraverse]
    rw [htraverse,hgraph]
    refine ⟨⟨fun hfollowed => .inr ?_,fun hno => ?_⟩,fun _ => ⟨rfl,rfl⟩⟩
    · exact Bool.eq_false_iff.mpr fun hconnected => hresolves (hfollowed.connected.mp hconnected)
    · have hno := hno.resolve_left hresolves
      refine ⟨rfl,?_,fun target htarget => absurd ⟨target,htarget⟩ hresolves,fun number hnumber => ?_⟩
      · rw [hno]
        exact ⟨fun hyes => absurd hyes Bool.false_ne_true,fun hyes => absurd hyes hresolves⟩
      · rw [LivePath.isConnected,hnumber] at hno
        cases hno

/-- Two objects, only the first of which has the property that a path leads to. -/
def twoObjects : LiveScene where
  graph := {
    objects := [{
      typeName := "A"
      values := ⟨[("x",.undefined)],List.nodup_singleton "x"⟩
      listeners := ⟨[],List.nodup_nil⟩ },{
      typeName := "B"
      values := ⟨[],List.nodup_nil⟩
      listeners := ⟨[],List.nodup_nil⟩ }]
    connections := ⟨[],List.nodup_nil⟩ }
  paths := [{ steps := [.property "x" "A"] }]

lemma twoObjects_fresh : twoObjects.Fresh := by
  refine ⟨fun o ho => ?_,rfl,rfl⟩
  obtain rfl | ho := List.mem_cons.mp ho
  · rfl
  · obtain rfl := List.mem_singleton.mp ho
    rfl

/-- A path that was connected leads to a property, and it is followed as it should be. -/
theorem traverse_followed_again : twoObjects.Fresh ∧ ∃ p p', p.isConnected = true ∧
    (twoObjects.run [.traverse 0 0]).paths[0]? = some p ∧
    (twoObjects.run [.traverse 0 0,.traverse 0 0]).paths[0]? = some p' ∧
    p.Followed p' (twoObjects.run [.traverse 0 0]).graph
      (twoObjects.run [.traverse 0 0,.traverse 0 0]).graph 0 := by
  have hp : (twoObjects.run [.traverse 0 0]).paths[0]? = some ⟨[.property "x" "A"],some 0⟩ := by decide +kernel
  have hunconnected : ∀ p ∈ twoObjects.paths, p.isConnected = false := by decide
  obtain ⟨p',hp',hfollowed,-⟩ := traverse_followed_iff twoObjects_fresh hunconnected [.traverse 0 0] hp 0
  refine ⟨twoObjects_fresh,_,p',rfl,hp,hp',hfollowed.mpr (.inl ?_)⟩
  exact ⟨_,.property (.object 0) (by decide +kernel)⟩

/-- The second object has no such property. The path is connected to the first one all the same, and listens
there. -/
theorem traverse_stays_connected : ∃ p p', p.isConnected = true ∧
    (twoObjects.run [.traverse 0 0]).paths[0]? = some p ∧
    (twoObjects.run [.traverse 0 0,.traverse 0 1]).paths[0]? = some p' ∧
    (¬∃ target, (twoObjects.run [.traverse 0 0]).graph.Resolves (.object 1) p.steps target) ∧
    p'.isConnected = true ∧ (twoObjects.run [.traverse 0 0,.traverse 0 1]).graph.listenerCount 0 "x" = 1 ∧
    ¬p.Followed p' (twoObjects.run [.traverse 0 0]).graph
      (twoObjects.run [.traverse 0 0,.traverse 0 1]).graph 1 := by
  have hno : ¬∃ target,
      (twoObjects.run [.traverse 0 0]).graph.Resolves (.object 1) [.property "x" "A"] target := by
    rintro ⟨target,htarget⟩
    have hfound := target?_eq_some_iff.mpr htarget
    have hnone : (twoObjects.run [.traverse 0 0]).graph.target? (.object 1) [.property "x" "A"] = none := by
      decide +kernel
    cases hfound.symm.trans hnone
  refine ⟨⟨[.property "x" "A"],some 0⟩,⟨[.property "x" "A"],some 0⟩,rfl,by decide +kernel,by decide +kernel,
    hno,rfl,by decide +kernel,fun hfollowed => ?_⟩
  exact hno (hfollowed.connected.mp rfl)

end LiveScene
end QmlCodeModel
