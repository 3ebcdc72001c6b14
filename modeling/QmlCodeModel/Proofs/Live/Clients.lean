import QmlCodeModel.Proofs.Live.History

/-! Clients of running objects. They connect to objects and write to them, make connections and subscribe to
them, and let paths lead to properties. -/
namespace QmlCodeModel

/-- Running objects, the paths that clients follow through them, and what has happened so far. -/
structure LiveScene where
  graph : LiveGraph
  paths : List LivePath
  history : List LiveEvent := []

/-- What a client does. Nobody who is called writes on. -/
inductive ClientCall
  | connect (object : Nat) (property tag : String)
  | disconnect (object : Nat) (property : String) (handle : Nat)
  | write (object : Nat) (property : String) (value : LiveValue)
  | create (target : LiveTarget)
  | subscribe (connection : Nat) (tag : String)
  | drop (connection : Nat)
  | traverse (path root : Nat)
  | leave (path : Nat)
  | subscribePath (path : Nat) (tag : String)

namespace LiveScene

open LiveEvent

/-- A listener is let in, and the handle is given out. -/
def joinedBy (g : LiveGraph) (object : Nat) (property : String) (l : Listener) : List LiveEvent :=
  (g.connect object property l).1.toList.map fun handle => .joined ⟨object,property,handle,l⟩

def connect (s : LiveScene) (object : Nat) (property : String) (o : Observer) : LiveScene :=
  { s with
    graph := (s.graph.connect object property (.observer o)).2
    history := s.history ++ joinedBy s.graph object property (.observer o) }

def disconnect (s : LiveScene) (object : Nat) (property : String) (handle : Nat) : LiveScene :=
  { s with
    graph := s.graph.disconnect object property handle
    history := s.history ++ [.left object property handle] }

def create (s : LiveScene) (target : LiveTarget) : LiveScene :=
  { s with
    graph := (s.graph.connectTo target).2
    history := s.history ++ joinedBy s.graph target.object target.property (.connection s.graph.nextConnection) }

/-- A client can end or subscribe to a connection that is there. -/
def drop (s : LiveScene) (number : Nat) : LiveScene :=
  { s with
    graph := s.graph.dropConnection number
    history := s.history ++ if s.graph.connections.contains number then [.ended number] else [] }

def subscribe (s : LiveScene) (number : Nat) (o : Observer) : LiveScene :=
  { s with
    graph := { s.graph with
      connections := s.graph.connections.modify number fun c => { c with subscribers := c.subscribers ++ [o] } }
    history := s.history ++ if s.graph.connections.contains number then [.subscribed number o] else [] }

/-- A path that is connected to something else gives its connection up, once it has the new one. -/
def traversed (s : LiveScene) (p : LivePath) (root : Nat) : LiveScene :=
  match s.graph.target? (.object root) p.steps with
  | none => s
  | some target => p.connection.elim (s.create target) (s.create target).drop

def perform (s : LiveScene) : ClientCall → LiveScene
  | .connect object property tag => s.connect object property { tag }
  | .disconnect object property handle => s.disconnect object property handle
  | .write object property value =>
    { s with graph := (s.graph.write? object property value).elim s.graph LiveGraph.Written.graph }
  | .create target => s.create target
  | .subscribe number tag => s.subscribe number { tag }
  | .drop number => s.drop number
  | .traverse path root => s.paths[path]?.elim s fun p =>
    let (p',graph) := p.traverse s.graph root
    { graph, paths := s.paths.set path p', history := (s.traversed p root).history }
  | .leave path => s.paths[path]?.elim s fun p =>
    let (p',graph) := p.disconnect s.graph
    { graph, paths := s.paths.set path p', history := (p.connection.elim s s.drop).history }
  | .subscribePath path tag => s.paths[path]?.elim s fun p =>
    { s with
      graph := (p.subscribe s.graph { tag }).2
      history := (p.connection.elim s fun number => s.subscribe number { tag }).history }

def run (s : LiveScene) (calls : List ClientCall) : LiveScene := calls.foldl perform s

/-- The lists of the objects and connections say what the history says, and nobody writes on. -/
structure Accounted (s : LiveScene) : Prop where
  listed : Listed s.history s.graph
  linked : ∀ number, LinkedAt s.history s.graph number
  quiet : ∀ e ∈ s.history, ∀ o, e.observer? = some o → o.forward = none

variable {s : LiveScene} {number : Nat}

lemma quiet_concat {history : List LiveEvent} {e : LiveEvent}
    (h : ∀ e ∈ history, ∀ o, e.observer? = some o → o.forward = none)
    (he : ∀ o, e.observer? = some o → o.forward = none) :
    ∀ e' ∈ history ++ [e], ∀ o, e'.observer? = some o → o.forward = none := by
  intro e' he' o ho
  obtain he' | he' := List.mem_append.mp he'
  · exact h e' he' o ho
  · obtain rfl := List.mem_singleton.mp he'
    exact he o ho

namespace Accounted

lemma connect (h : s.Accounted) (object : Nat) (property tag : String) :
    (s.connect object property { tag }).Accounted := by
  obtain ⟨handle,g',hconnect,hjoins,hsame⟩ | hconnect :=
    s.graph.connect_cases object property (.observer { tag })
  · unfold LiveScene.connect joinedBy
    rw [hconnect]
    refine ⟨h.listed.join hjoins,fun number => ?_,quiet_concat h.quiet fun o ho => ?_⟩
    · exact (h.linked number).concat (fun hno => by cases hno) (by rw [hsame.connections])
        (Nat.le_of_eq hsame.nextConnection.symm)
    · cases ho
      rfl
  · unfold LiveScene.connect joinedBy
    rw [hconnect]
    simpa using h

lemma disconnect (h : s.Accounted) (object : Nat) (property : String) (handle : Nat) :
    (s.disconnect object property handle).Accounted := by
  refine ⟨h.listed.leave rfl fun _ _ => rfl,fun number => ?_,quiet_concat h.quiet fun o ho => by cases ho⟩
  exact (h.linked number).concat (fun hno => by cases hno) rfl (Nat.le_refl _)

lemma create (h : s.Accounted) (target : LiveTarget) : (s.create target).Accounted := by
  unfold LiveScene.create joinedBy
  have hget {m : FiniteMap Nat Connection} (hm : m = s.graph.connections) (c : Connection) (number : Nat) :
      (m.insert s.graph.nextConnection c).get? number =
        if number = s.graph.nextConnection then some c else s.graph.connections.get? number := by
    rw [hm,FiniteMap.get?_insert]
  obtain ⟨handle,g',hconnect,hjoins,hsame⟩ | hconnect :=
    s.graph.connect_cases target.object target.property (.connection s.graph.nextConnection)
  · rw [LiveGraph.connectTo_of_connect hconnect,hconnect]
    refine ⟨(h.listed.join hjoins).congr (fun _ _ => rfl) fun _ => rfl,fun number => ?_,
      quiet_concat h.quiet fun o ho => by cases ho⟩
    by_cases hnumber : number = s.graph.nextConnection
    · refine (h.linked number).joined hnumber ((hget hsame.connections _ number).trans (if_pos hnumber))
        rfl ?_ rfl
      rw [hnumber]
      rfl
    · refine (h.linked number).concat ?_ ((hget hsame.connections _ number).trans (if_neg hnumber))
        (Nat.le_succ _)
      exact fun hsome => hnumber (Option.some.inj hsome).symm
  · rw [LiveGraph.connectTo_of_connect hconnect,hconnect]
    simp only [Option.toList_none,List.map_nil,List.append_nil]
    refine ⟨h.listed.congr (fun _ _ => rfl) fun _ => rfl,fun number => ?_,h.quiet⟩
    by_cases hnumber : number = s.graph.nextConnection
    · exact (h.linked number).opened hnumber ((hget rfl _ number).trans (if_pos hnumber)) rfl rfl rfl
    · exact (h.linked number).congr ((hget rfl _ number).trans (if_neg hnumber)) (Nat.le_succ _)

lemma drop (h : s.Accounted) (number : Nat) : (s.drop number).Accounted := by
  unfold LiveScene.drop LiveGraph.dropConnection
  cases hc : s.graph.connections.get? number with
  | none =>
    have hno : s.graph.connections.contains number = false := by rw [FiniteMap.contains,hc]; rfl
    rw [hno]
    simpa using h
  | some c =>
    have hhas : s.graph.connections.contains number = true := by rw [FiniteMap.contains,hc]; rfl
    rw [if_pos hhas]
    have hlinked {g : LiveGraph} (hg : s.graph.SameConnections g) (n : Nat) :
        LinkedAt (s.history ++ [.ended number]) { g with connections := g.connections.erase number } n := by
      have hget : (g.connections.erase number).get? n =
          if n = number then none else s.graph.connections.get? n := by
        rw [hg.connections,FiniteMap.get?_erase]
      by_cases hn : n = number
      · subst hn
        exact (h.linked n).dropped hc (hget.trans (if_pos rfl)) hg.nextConnection
      · exact (h.linked n).concat (fun hsome => hn (Option.some.inj hsome).symm) (hget.trans (if_neg hn))
          (Nat.le_of_eq hg.nextConnection.symm)
    have hquiet := quiet_concat (e := .ended number) h.quiet fun o ho => by cases ho
    dsimp only
    cases hhandle : c.handle with
    | none =>
      have hlisted := h.listed.idle (e := .ended number) rfl fun r hr =>
        Listed.ends_ended_of_none (h.linked number) hc hhandle hr
      exact ⟨hlisted.congr (fun _ _ => rfl) fun _ => rfl,hlinked ⟨rfl,rfl⟩,hquiet⟩
    | some handle =>
      have hlisted := h.listed.leave (e := .ended number) rfl fun r hr =>
        h.listed.ends_ended (h.linked number) hc hhandle hr
      exact ⟨hlisted.congr (fun _ _ => rfl) fun _ => rfl,hlinked ⟨rfl,rfl⟩,hquiet⟩

lemma subscribe (h : s.Accounted) (number : Nat) (tag : String) : (s.subscribe number { tag }).Accounted := by
  unfold LiveScene.subscribe
  cases hc : s.graph.connections.get? number with
  | none =>
    have hno : s.graph.connections.contains number = false := by rw [FiniteMap.contains,hc]; rfl
    rw [hno,FiniteMap.modify,hc]
    simpa using h
  | some c =>
    have hhas : s.graph.connections.contains number = true := by rw [FiniteMap.contains,hc]; rfl
    rw [if_pos hhas]
    refine ⟨(h.listed.idle rfl fun _ _ => rfl).congr (fun _ _ => rfl) fun _ => rfl,fun n => ?_,
      quiet_concat h.quiet fun o ho => ?_⟩
    · by_cases hn : n = number
      · subst hn
        refine (h.linked n).subscribed hc ?_ rfl
        rw [FiniteMap.get?_modify,if_pos rfl,hc]
        rfl
      · refine (h.linked n).concat (fun hsome => hn (Option.some.inj hsome).symm) ?_ (Nat.le_refl _)
        rw [FiniteMap.get?_modify,if_neg hn]
    · cases ho
      rfl

/-- It does not depend on the paths. -/
lemma congr {s' : LiveScene} (h : s.Accounted) (hgraph : s'.graph = s.graph)
    (hhistory : s'.history = s.history) : s'.Accounted := by
  constructor <;> rw [hhistory]
  · exact hgraph ▸ h.listed
  · exact hgraph ▸ h.linked
  · exact h.quiet

lemma dropIf (h : s.Accounted) (connection : Option Nat) : (connection.elim s s.drop).Accounted := by
  cases connection with
  | none => exact h
  | some number => exact h.drop number

lemma graph_traversed (s : LiveScene) (p : LivePath) (root : Nat) :
    (s.traversed p root).graph = (p.traverse s.graph root).2 := by
  unfold traversed LivePath.traverse
  cases s.graph.target? (.object root) p.steps with
  | none => rfl
  | some target =>
    unfold LivePath.disconnect
    cases p.connection <;> rfl

lemma traversed (h : s.Accounted) (p : LivePath) (root : Nat) : (s.traversed p root).Accounted := by
  unfold LiveScene.traversed
  cases s.graph.target? (.object root) p.steps with
  | none => exact h
  | some target => exact (h.create target).dropIf p.connection

/-- Whoever is called has come. -/
lemma observersOf_eq (h : s.Accounted) (object : Nat) (property : String) :
    s.graph.observersOf object property = calledOn s.history object property := by
  rw [LiveGraph.observersOf_eq,h.listed.listeners,List.flatMap_map,calledOn]
  refine List.flatMap_congr fun r hr => ?_
  have hr := (List.mem_filter.mp hr).1
  obtain ⟨object,property,handle,o | number⟩ := r
  · rfl
  · obtain ⟨c,hc⟩ := Option.isSome_iff_exists.mp ((h.linked number).there _ hr rfl)
    change ((s.graph.connections.get? number).map Connection.subscribers).getD [] = _
    rw [hc]
    exact (h.linked number).subscribers c hc

lemma forward_of_mem (h : s.Accounted) (object : Nat) (property : String) {o : Observer}
    (ho : o ∈ calledOn s.history object property) : o.forward = none := by
  obtain ⟨r,hr,ho⟩ := List.mem_flatMap.mp ho
  have hr := mem_registrations.mp ((standing_sublist _).subset (List.mem_filter.mp hr).1)
  obtain ⟨object,property,handle,o' | number⟩ := r
  · obtain rfl := List.mem_singleton.mp ho
    exact h.quiet _ hr o rfl
  · obtain ⟨e,he,ho⟩ := List.mem_filterMap.mp ho
    cases e with
    | subscribed n o' =>
      rw [Option.ite_none_right_eq_some] at ho
      obtain ⟨-,ho⟩ := ho
      cases ho
      exact h.quiet _ he o rfl
    | joined => cases ho
    | left => cases ho
    | ended => cases ho

/-- What a write does, as far as it can be seen from what has happened. -/
theorem write?_eq (h : s.Accounted) (object : Nat) (property : String) (value : LiveValue) :
    (s.graph.hasProperty object property = true ∧ ∃ g', s.graph.Assigned g' object property value ∧
      s.graph.write? object property value =
        some ⟨true,g',(calledOn s.history object property).map fun o => (o.tag,value)⟩) ∨
    (s.graph.hasProperty object property = false ∧
      s.graph.write? object property value = some ⟨false,s.graph,[]⟩) := by
  rw [← h.observersOf_eq]
  refine LiveGraph.write?_of_forward fun o ho => h.forward_of_mem object property ?_
  rwa [← h.observersOf_eq]

lemma write (h : s.Accounted) (object : Nat) (property : String) (value : LiveValue) :
    (s.perform (.write object property value)).Accounted := by
  unfold perform
  dsimp only
  obtain ⟨-,g',hassigned,hwrite⟩ | ⟨-,hwrite⟩ := h.write?_eq object property value <;> rw [hwrite]
  · refine ⟨h.listed.congr hassigned.listeners hassigned.next,
      fun number => (h.linked number).congr ?_ ?_,h.quiet⟩
    · exact congrArg (·.get? number) hassigned.same.connections
    · exact Nat.le_of_eq hassigned.same.nextConnection.symm
  · exact h

/-- One call keeps the account. -/
theorem perform (h : s.Accounted) (call : ClientCall) : (s.perform call).Accounted := by
  cases call with
  | connect object property tag => exact h.connect object property tag
  | disconnect object property handle => exact h.disconnect object property handle
  | write object property value => exact h.write object property value
  | create target => exact h.create target
  | subscribe number tag => exact h.subscribe number tag
  | drop number => exact h.drop number
  | traverse path root =>
    unfold LiveScene.perform
    dsimp only
    cases s.paths[path]? with
    | none => exact h
    | some p => exact (h.traversed p root).congr (graph_traversed s p root).symm rfl
  | leave path =>
    unfold LiveScene.perform
    dsimp only
    cases s.paths[path]? with
    | none => exact h
    | some p =>
      refine (h.dropIf p.connection).congr ?_ rfl
      change (p.disconnect s.graph).2 = _
      unfold LivePath.disconnect
      cases p.connection <;> rfl
  | subscribePath path tag =>
    unfold LiveScene.perform
    dsimp only
    cases s.paths[path]? with
    | none => exact h
    | some p =>
      rw [Option.elim_some]
      unfold LivePath.subscribe
      cases p.connection with
      | none => exact h
      | some number => exact (h.subscribe number tag).congr rfl rfl

theorem run (h : s.Accounted) (calls : List ClientCall) : (s.run calls).Accounted := by
  induction calls generalizing s with
  | nil => exact h
  | cons call rest ih => exact ih (h.perform call)

end Accounted

/-- Nobody listens yet, and there are no connections. -/
structure Fresh (s : LiveScene) : Prop where
  listeners : ∀ o ∈ s.graph.objects, o.listeners = {}
  connections : s.graph.connections = {}
  history : s.history = []

lemma Fresh.accounted (h : s.Fresh) : s.Accounted := by
  have hnone (number : Nat) : s.graph.connections.get? number = none := by
    rw [h.connections]
    rfl
  constructor <;> rw [h.history]
  · refine ⟨fun i q => ?_,List.nodup_nil,List.forall_mem_nil _⟩
    unfold LiveGraph.listenersAt
    cases ho : s.graph.object? i with
    | none => rfl
    | some o =>
      change o.listenersTo q = []
      rw [LiveObject.listenersTo,h.listeners o (List.mem_of_getElem? ho)]
      rfl
  · intro number
    refine ⟨fun hknown => ?_,fun c hc => ?_,fun c hc => ?_,List.forall_mem_nil _,fun hended => ?_⟩
    · obtain hsome | ⟨e,he,-⟩ := hknown
      · rw [hnone] at hsome
        cases hsome
      · cases he
    · rw [hnone] at hc
      cases hc
    · rw [hnone] at hc
      cases hc
    · cases hended
  · exact List.forall_mem_nil _

/-- Whatever clients do: no handle is given out twice by an object; a property has as many listeners as have
joined and not left; a write is accepted where there is such a property, changes nothing but its value, and calls
those who listen there, in the order in which they have joined; and nobody is called through a connection that has
been ended. -/
theorem listening_of_run (hs : s.Fresh) (calls : List ClientCall) :
    ((registrations (s.run calls).history).map fun r => (r.object,r.handle)).Nodup ∧
    (∀ object property, (s.run calls).graph.listenerCount object property =
      ((standing (s.run calls).history).filter (·.isAt object property)).length) ∧
    (∀ object property value, ∃ w, (s.run calls).graph.write? object property value = some w ∧
      w.accepted = (s.run calls).graph.hasProperty object property ∧
      if w.accepted then
        (s.run calls).graph.Assigned w.graph object property value ∧
        w.calls = (calledOn (s.run calls).history object property).map fun o => (o.tag,value)
      else w.graph = (s.run calls).graph ∧ w.calls = []) ∧
    ∀ number, .ended number ∈ (s.run calls).history →
      ∀ r ∈ standing (s.run calls).history, r.listener ≠ .connection number := by
  have h := hs.accounted.run calls
  refine ⟨h.listed.distinct,fun object property => ?_,fun object property value => ?_,
    fun number hended r hr hlistener => ?_⟩
  · rw [LiveGraph.listenerCount_eq,h.listed.listeners,List.length_map]
  · obtain ⟨hhas,g',hassigned,hwrite⟩ | ⟨hhas,hwrite⟩ := h.write?_eq object property value
    · exact ⟨_,hwrite,hhas.symm,hassigned,rfl⟩
    · exact ⟨_,hwrite,hhas.symm,rfl,rfl⟩
  · have hthere := (h.linked number).there r hr hlistener
    rw [(h.linked number).ended hended] at hthere
    cases hthere

/-- An object with one property, and a path to it. -/
def oneProperty : LiveScene where
  graph := {
    objects := [{
      typeName := "A"
      values := ⟨[("x",.undefined)],List.nodup_singleton "x"⟩
      listeners := ⟨[],List.nodup_nil⟩ }]
    connections := ⟨[],List.nodup_nil⟩ }
  paths := [{ steps := [.property "x" "A"] }]

/-- The path leads to the property twice. The second connection takes the place of the first one, whose
subscriber is called no longer. -/
theorem listening_of_replaced : ∃ calls, oneProperty.Fresh ∧
    (oneProperty.run calls).graph.listenerCount 0 "x" = 2 ∧
    LiveEvent.ended 0 ∈ (oneProperty.run calls).history ∧
    ∃ w, (oneProperty.run calls).graph.write? 0 "x" (.bool true) = some w ∧
      w.calls = [("a",.bool true),("c",.bool true)] := by
  let calls : List ClientCall := [.connect 0 "x" "a",.traverse 0 0,.subscribePath 0 "b",.traverse 0 0,
    .subscribePath 0 "c"]
  have hfresh : oneProperty.Fresh := by
    refine ⟨fun o ho => ?_,rfl,rfl⟩
    obtain rfl := List.mem_singleton.mp ho
    rfl
  obtain ⟨-,hcount,hwrite,-⟩ := listening_of_run hfresh calls
  obtain ⟨w,hw,haccepted,hcalls⟩ := hwrite 0 "x" (.bool true)
  have hhas : (oneProperty.run calls).graph.hasProperty 0 "x" = true := by decide +kernel
  rw [haccepted,hhas,if_pos rfl] at hcalls
  exact ⟨calls,hfresh,(hcount 0 "x").trans (by decide +kernel),by decide +kernel,w,hw,
    hcalls.2.trans (by decide +kernel)⟩

end LiveScene
end QmlCodeModel
