import Mathlib.Data.List.Induction
import QmlCodeModel.Proofs.Live.Listeners

/-! What happens to the listeners of running objects while clients connect to them, write to them and let paths
lead to them. The lists of the objects and the connections show, at any time, who has joined and has not left. -/
namespace QmlCodeModel

/-- A listener that has been let in, under the handle that was given out for it. -/
structure Registration where
  object : Nat
  property : String
  handle : Nat
  listener : Listener
  deriving DecidableEq

namespace Registration

def isAt (r : Registration) (object : Nat) (property : String) : Bool :=
  r.object = object ∧ r.property = property

def entry (r : Registration) : Nat × Listener := (r.handle,r.listener)

end Registration

/-- What clients see happen. -/
inductive LiveEvent
  | joined (r : Registration)
  | left (object : Nat) (property : String) (handle : Nat)
  | ended (connection : Nat)
  | subscribed (connection : Nat) (o : Observer)
  deriving DecidableEq

namespace LiveEvent

def registration? : LiveEvent → Option Registration
  | joined r => some r
  | _ => none

/-- The connection that the event is about. -/
def connection? : LiveEvent → Option Nat
  | joined ⟨_,_,_,.connection number⟩ => some number
  | ended number => some number
  | subscribed number _ => some number
  | _ => none

lemma connection?_joined {r : Registration} {number : Nat} (h : r.listener = .connection number) :
    (joined r).connection? = some number := by
  obtain ⟨object,property,handle,l⟩ := r
  cases h
  rfl

def observer? : LiveEvent → Option Observer
  | joined ⟨_,_,_,.observer o⟩ => some o
  | subscribed _ o => some o
  | _ => none

/-- The event ends what was registered before it. -/
def ends : LiveEvent → Registration → Bool
  | left object property handle, r => r.isAt object property ∧ r.handle = handle
  | ended number, r => r.listener = .connection number
  | _, _ => false

end LiveEvent

open LiveEvent

/-- All that was registered. -/
def registrations (history : List LiveEvent) : List Registration := history.filterMap registration?

/-- What was registered, in that order, and has not been ended by a later event. -/
def standing : List LiveEvent → List Registration
  | [] => []
  | .joined r :: later => if later.any (·.ends r) then standing later else r :: standing later
  | _ :: later => standing later

/-- Who has subscribed to a connection, in that order. -/
def subscribersOf (history : List LiveEvent) (number : Nat) : List Observer :=
  history.filterMap fun
    | .subscribed n o => if n = number then some o else none
    | _ => none

/-- Who is called, as it has happened, when a property is written. -/
def calledOn (history : List LiveEvent) (object : Nat) (property : String) : List Observer :=
  ((standing history).filter (·.isAt object property)).flatMap fun r =>
    match r.listener with
    | .observer o => [o]
    | .connection number => subscribersOf history number

section

variable {history : List LiveEvent} {e : LiveEvent} {r : Registration} {number : Nat}

lemma registrations_concat (history : List LiveEvent) (e : LiveEvent) :
    registrations (history ++ [e]) = registrations history ++ e.registration?.toList := by
  rw [registrations,List.filterMap_append,registrations]
  cases e <;> rfl

lemma mem_registrations : r ∈ registrations history ↔ .joined r ∈ history := by
  rw [registrations,List.mem_filterMap]
  constructor
  · rintro ⟨e,he,hr⟩
    cases e with
    | joined r' =>
      cases hr
      exact he
    | left => cases hr
    | ended => cases hr
    | subscribed => cases hr
  · exact fun h => ⟨_,h,rfl⟩

lemma standing_concat (history : List LiveEvent) (e : LiveEvent) :
    standing (history ++ [e]) = (standing history).filter (!e.ends ·) ++ e.registration?.toList := by
  induction history with
  | nil => cases e <;> rfl
  | cons first later ih =>
    cases first with
    | joined r =>
      rw [List.cons_append,standing,standing,List.any_append,ih]
      cases later.any (·.ends r) <;> cases he : e.ends r <;> simp [he]
    | left => exact ih
    | ended => exact ih
    | subscribed => exact ih

lemma standing_sublist (history : List LiveEvent) : (standing history).Sublist (registrations history) := by
  induction history with
  | nil => exact .slnil
  | cons first later ih =>
    cases first with
    | joined r =>
      rw [standing]
      split
      · exact ih.cons r
      · exact ih.cons_cons r
    | left => exact ih
    | ended => exact ih
    | subscribed => exact ih

lemma subscribersOf_concat (history : List LiveEvent) (e : LiveEvent) (number : Nat) :
    subscribersOf (history ++ [e]) number = subscribersOf history number ++ subscribersOf [e] number :=
  List.filterMap_append

end

/-! The listeners of the objects. -/

/-- Objects have those listeners that are standing, and give out no handle twice. -/
structure Listed (history : List LiveEvent) (g : LiveGraph) : Prop where
  listeners : ∀ i q, g.listenersAt i q =
    ((standing history).filter (·.isAt i q)).map Registration.entry
  distinct : ((registrations history).map fun r => (r.object,r.handle)).Nodup
  given : ∀ r ∈ registrations history, r.handle < g.nextHandleAt r.object

namespace Listed

variable {history : List LiveEvent} {g g' : LiveGraph} {object handle : Nat} {property : String}
variable {l : Listener} {e : LiveEvent}

/-- No two registrations of an object have the same handle. -/
lemma unique (h : Listed history g) {r r' : Registration} (hr : r ∈ registrations history)
    (hr' : r' ∈ registrations history) (hobject : r.object = r'.object) (hhandle : r.handle = r'.handle) :
    r = r' :=
  List.inj_on_of_nodup_map h.distinct hr hr' (Prod.ext hobject hhandle)

lemma join (h : Listed history g) (hj : g.Joins g' object property handle l) :
    Listed (history ++ [.joined ⟨object,property,handle,l⟩]) g' := by
  refine ⟨fun i q => ?_,?_,fun r hr => ?_⟩
  · have hkeep : (standing history).filter (!(LiveEvent.joined ⟨object,property,handle,l⟩).ends ·) =
        standing history := List.filter_eq_self.mpr fun _ _ => rfl
    rw [hj.listeners,h.listeners,standing_concat,hkeep,List.filter_append,List.map_append]
    congr 1
    by_cases hat : i = object ∧ q = property
    · obtain ⟨rfl,rfl⟩ := hat
      simp [registration?,Registration.isAt,Registration.entry]
    · rw [if_neg hat]
      have hno : ¬(object = i ∧ property = q) := fun h => hat ⟨h.1.symm,h.2.symm⟩
      simp [registration?,Registration.isAt,hno]
  · rw [registrations_concat,List.map_append]
    refine List.Nodup.append h.distinct (List.nodup_singleton _) (List.disjoint_singleton.mpr fun hmem => ?_)
    obtain ⟨r,hr,heq⟩ := List.mem_map.mp hmem
    obtain ⟨hobject,hhandle⟩ := Prod.mk.inj heq
    have hlt := h.given r hr
    rw [hobject,hhandle,hj.fresh] at hlt
    exact Nat.lt_irrefl _ hlt
  · rw [registrations_concat] at hr
    rw [hj.next]
    obtain hr | hr := List.mem_append.mp hr
    · have hlt := h.given r hr
      split
      · rename_i hobject
        rw [hobject,hj.fresh] at hlt
        exact Nat.lt_succ_of_lt hlt
      · exact hlt
    · obtain rfl := List.mem_singleton.mp hr
      rw [if_pos rfl]
      exact Nat.lt_succ_self handle

/-- An event that lets nobody in takes those out of the lists that it ends. -/
lemma concat (h : Listed history g) (hnone : e.registration? = none)
    (hlisteners : ∀ i q, g'.listenersAt i q =
      (((standing history).filter (!e.ends ·)).filter (·.isAt i q)).map Registration.entry)
    (hnext : ∀ i, g'.nextHandleAt i = g.nextHandleAt i) : Listed (history ++ [e]) g' := by
  have hregistrations : registrations (history ++ [e]) = registrations history := by
    rw [registrations_concat,hnone,Option.toList_none,List.append_nil]
  have hstanding : standing (history ++ [e]) = (standing history).filter (!e.ends ·) := by
    rw [standing_concat,hnone,Option.toList_none,List.append_nil]
  refine ⟨fun i q => hstanding ▸ hlisteners i q,hregistrations ▸ h.distinct,fun r hr => ?_⟩
  rw [hregistrations] at hr
  rw [hnext]
  exact h.given r hr

lemma leave (h : Listed history g) (hnone : e.registration? = none)
    (hends : ∀ r ∈ standing history, e.ends r = (LiveEvent.left object property handle).ends r) :
    Listed (history ++ [e]) (g.disconnect object property handle) := by
  refine h.concat hnone (fun i q => ?_) (g.nextHandleAt_disconnect object property handle)
  rw [List.filter_congr fun r hr => congrArg not (hends r hr),g.listenersAt_disconnect,h.listeners,List.filter_map,
    List.filter_filter,List.filter_filter]
  split
  · rename_i hat
    obtain ⟨rfl,rfl⟩ := hat
    congr 1
    refine List.filter_congr fun r _ => ?_
    by_cases hhandle : r.handle = handle <;> simp [ends,hhandle,Registration.entry]
  · rename_i hat
    congr 1
    refine List.filter_congr fun r _ => ?_
    cases hr : r.isAt i q with
    | false => rfl
    | true =>
      have hno : r.isAt object property = false := by
        simp only [Registration.isAt,decide_eq_true_eq] at hr
        refine decide_eq_false fun h => hat ?_
        exact ⟨hr.1.symm.trans h.1,hr.2.symm.trans h.2⟩
      simp [ends,hno]

/-- An event that ends nothing, as far as it is standing. -/
lemma idle (h : Listed history g) (hnone : e.registration? = none)
    (hends : ∀ r ∈ standing history, e.ends r = false) : Listed (history ++ [e]) g := by
  refine h.concat hnone (fun i q => ?_) fun _ => rfl
  have hkeep : (standing history).filter (!e.ends ·) = standing history :=
    List.filter_eq_self.mpr fun r hr => by rw [hends r hr]; rfl
  rw [hkeep,h.listeners]

lemma congr (h : Listed history g) (hlisteners : ∀ i q, g'.listenersAt i q = g.listenersAt i q)
    (hnext : ∀ i, g'.nextHandleAt i = g.nextHandleAt i) : Listed history g' :=
  ⟨fun i q => (hlisteners i q).trans (h.listeners i q),h.distinct,fun r hr => by
    rw [hnext]
    exact h.given r hr⟩

end Listed

/-! The connections. -/

/-- How a connection that has a handle is registered. -/
def Connection.registration? (c : Connection) (number : Nat) : Option Registration :=
  c.handle.map fun handle => ⟨c.target.object,c.target.property,handle,.connection number⟩

/-- A connection has those subscribers that have come to it, and it is registered once, under its handle, if at
all. When it has been ended it is not there, and its number is not given to another. -/
structure LinkedAt (history : List LiveEvent) (g : LiveGraph) (number : Nat) : Prop where
  known : (g.connections.get? number).isSome ∨ (∃ e ∈ history, e.connection? = some number) →
    number < g.nextConnection
  subscribers : ∀ c, g.connections.get? number = some c → c.subscribers = subscribersOf history number
  registered : ∀ c, g.connections.get? number = some c →
    (registrations history).filter (·.listener = .connection number) = (c.registration? number).toList
  there : ∀ r ∈ standing history, r.listener = .connection number → (g.connections.get? number).isSome
  ended : .ended number ∈ history → g.connections.get? number = none

namespace LinkedAt

variable {history : List LiveEvent} {g g' : LiveGraph} {e : LiveEvent} {number : Nat} {c : Connection}

lemma subscribersOf_of_ne (hne : e.connection? ≠ some number) (history : List LiveEvent) :
    subscribersOf (history ++ [e]) number = subscribersOf history number := by
  rw [subscribersOf_concat]
  cases e with
  | subscribed n o =>
    have hn : n ≠ number := fun h => hne (congrArg some h)
    simp [subscribersOf,hn]
  | joined => simp [subscribersOf]
  | left => simp [subscribersOf]
  | ended => simp [subscribersOf]

lemma registered_of_ne (hne : e.connection? ≠ some number) (history : List LiveEvent) :
    (registrations (history ++ [e])).filter (·.listener = .connection number) =
      (registrations history).filter (·.listener = .connection number) := by
  rw [registrations_concat,List.filter_append]
  cases e with
  | joined r =>
    have hr : r.listener ≠ .connection number := by
      intro h
      exact hne (connection?_joined h)
    simp [registration?,hr]
  | left => simp [registration?]
  | ended => simp [registration?]
  | subscribed => simp [registration?]

lemma standing_of_concat {r : Registration} (hr : r ∈ standing (history ++ [e])) :
    (r ∈ standing history ∧ e.ends r = false) ∨ e = .joined r := by
  rw [standing_concat] at hr
  obtain hr | hr := List.mem_append.mp hr
  · obtain ⟨hr,hends⟩ := List.mem_filter.mp hr
    exact .inl ⟨hr,by simpa using hends⟩
  · cases e with
    | joined r' =>
      obtain rfl := List.mem_singleton.mp hr
      exact .inr rfl
    | left => cases hr
    | ended => cases hr
    | subscribed => cases hr

/-- Nothing has happened to a connection whose number has not been given out. -/
lemma new (h : LinkedAt history g number) (hnumber : ¬number < g.nextConnection) :
    g.connections.get? number = none ∧ ∀ e ∈ history, e.connection? ≠ some number := by
  constructor
  · cases hc : g.connections.get? number with
    | none => rfl
    | some c => exact absurd (h.known (.inl (by rw [hc]; rfl))) hnumber
  · exact fun e he hconnection => hnumber (h.known (.inr ⟨e,he,hconnection⟩))

lemma nothing_of_new (hnew : ∀ e ∈ history, e.connection? ≠ some number) :
    subscribersOf history number = [] ∧
      (registrations history).filter (·.listener = .connection number) = [] := by
  induction history using List.reverseRecOn with
  | nil => exact ⟨rfl,rfl⟩
  | append_singleton before e ih =>
    have he := hnew e (List.mem_append_right _ (List.mem_singleton_self e))
    rw [subscribersOf_of_ne he,registered_of_ne he]
    exact ih fun e he => hnew e (List.mem_append_left _ he)

lemma congr (h : LinkedAt history g number) (hget : g'.connections.get? number = g.connections.get? number)
    (hnext : g.nextConnection ≤ g'.nextConnection) : LinkedAt history g' number := by
  refine ⟨fun hknown => ?_,?_,?_,?_,?_⟩ <;> rw [hget] at *
  · exact Nat.lt_of_lt_of_le (h.known hknown) hnext
  · exact h.subscribers
  · exact h.registered
  · exact h.there
  · exact h.ended

/-- An event that is not about the connection. -/
lemma concat (h : LinkedAt history g number) (hne : e.connection? ≠ some number)
    (hget : g'.connections.get? number = g.connections.get? number)
    (hnext : g.nextConnection ≤ g'.nextConnection) : LinkedAt (history ++ [e]) g' number := by
  have h' := h.congr hget hnext
  refine ⟨fun hknown => h'.known (hknown.imp_right ?_),fun c hc => ?_,fun c hc => ?_,fun r hr hr' => ?_,
    fun hended => ?_⟩
  · rintro ⟨e',he',hnumber⟩
    obtain he' | he' := List.mem_append.mp he'
    · exact ⟨e',he',hnumber⟩
    · obtain rfl := List.mem_singleton.mp he'
      exact absurd hnumber hne
  · rw [subscribersOf_of_ne hne]
    exact h'.subscribers c hc
  · rw [registered_of_ne hne]
    exact h'.registered c hc
  · obtain ⟨hr,-⟩ | rfl := standing_of_concat hr
    · exact h'.there r hr hr'
    · exact absurd (connection?_joined hr') hne
  · obtain hended | hended := List.mem_append.mp hended
    · exact h'.ended hended
    · obtain rfl := List.mem_singleton.mp hended
      exact absurd rfl hne

/-- A new connection that is not registered. -/
lemma opened (h : LinkedAt history g number) (hnumber : number = g.nextConnection)
    (hget : g'.connections.get? number = some c) (hsubscribers : c.subscribers = []) (hhandle : c.handle = none)
    (hnext : g'.nextConnection = g.nextConnection + 1) : LinkedAt history g' number := by
  obtain ⟨hnone,hnew⟩ := h.new (by omega)
  obtain ⟨hsub,hreg⟩ := nothing_of_new hnew
  refine ⟨fun _ => by omega,fun c' hc' => ?_,fun c' hc' => ?_,fun _ _ _ => by rw [hget]; rfl,fun hended => ?_⟩
  · cases hget.symm.trans hc'
    rw [hsubscribers,hsub]
  · cases hget.symm.trans hc'
    rw [hreg,Connection.registration?,hhandle]
    rfl
  · exact absurd rfl (hnew _ hended)

/-- A new connection that is registered. -/
lemma joined {r : Registration} (h : LinkedAt history g number) (hnumber : number = g.nextConnection)
    (hget : g'.connections.get? number = some c) (hsubscribers : c.subscribers = [])
    (hr : c.registration? number = some r) (hnext : g'.nextConnection = g.nextConnection + 1) :
    LinkedAt (history ++ [.joined r]) g' number := by
  obtain ⟨hnone,hnew⟩ := h.new (by omega)
  obtain ⟨hsub,hreg⟩ := nothing_of_new hnew
  have hlistener : r.listener = .connection number := by
    obtain ⟨handle,-,rfl⟩ := Option.map_eq_some_iff.mp hr
    rfl
  refine ⟨fun _ => by omega,fun c' hc' => ?_,fun c' hc' => ?_,fun _ _ _ => by rw [hget]; rfl,fun hended => ?_⟩
  · cases hget.symm.trans hc'
    rw [hsubscribers,subscribersOf_concat,hsub]
    rfl
  · cases hget.symm.trans hc'
    rw [registrations_concat,List.filter_append,hreg,hr]
    simp [registration?,hlistener]
  · obtain hended | hended := List.mem_append.mp hended
    · exact absurd rfl (hnew _ hended)
    · cases List.mem_singleton.mp hended

lemma subscribed (h : LinkedAt history g number) (hc : g.connections.get? number = some c) {o : Observer}
    (hget : g'.connections.get? number = some { c with subscribers := c.subscribers ++ [o] })
    (hnext : g'.nextConnection = g.nextConnection) : LinkedAt (history ++ [.subscribed number o]) g' number := by
  refine ⟨fun _ => ?_,fun c' hc' => ?_,fun c' hc' => ?_,fun _ _ _ => by rw [hget]; rfl,fun hended => ?_⟩
  · rw [hnext]
    exact h.known (.inl (by rw [hc]; rfl))
  · cases hget.symm.trans hc'
    rw [subscribersOf_concat,← h.subscribers c hc]
    simp [subscribersOf]
  · cases hget.symm.trans hc'
    have hnone : (LiveEvent.subscribed number o).registration? = none := rfl
    rw [registrations_concat,hnone,Option.toList_none,List.append_nil]
    exact h.registered c hc
  · obtain hended | hended := List.mem_append.mp hended
    · rw [h.ended hended] at hc
      cases hc
    · cases List.mem_singleton.mp hended

lemma dropped (h : LinkedAt history g number) (hc : g.connections.get? number = some c)
    (hget : g'.connections.get? number = none) (hnext : g'.nextConnection = g.nextConnection) :
    LinkedAt (history ++ [.ended number]) g' number := by
  refine ⟨fun _ => ?_,fun c' hc' => ?_,fun c' hc' => ?_,fun r hr hr' => ?_,fun _ => hget⟩
  · rw [hnext]
    exact h.known (.inl (by rw [hc]; rfl))
  · cases hget.symm.trans hc'
  · cases hget.symm.trans hc'
  · obtain ⟨-,hends⟩ | hjoined := standing_of_concat hr
    · exact absurd hr' (of_decide_eq_false hends)
    · cases hjoined

end LinkedAt

namespace Listed

variable {history : List LiveEvent} {g : LiveGraph} {number handle : Nat} {c : Connection}

lemma mem_registered (hl : LinkedAt history g number) (hc : g.connections.get? number = some c)
    {r : Registration} : r ∈ registrations history ∧ r.listener = .connection number ↔
      c.registration? number = some r := by
  have hmem : r ∈ (registrations history).filter (·.listener = .connection number) ↔ _ := List.mem_filter
  rw [hl.registered c hc,Option.mem_toList,decide_eq_true_eq] at hmem
  exact hmem.symm

/-- The end of a connection ends what is registered under its handle, and nothing else. -/
lemma ends_ended (h : Listed history g) (hl : LinkedAt history g number)
    (hc : g.connections.get? number = some c) (hhandle : c.handle = some handle) {r : Registration}
    (hr : r ∈ standing history) : (LiveEvent.ended number).ends r =
      (LiveEvent.left c.target.object c.target.property handle).ends r := by
  have hr := (standing_sublist history).subset hr
  have hown : c.registration? number =
      some ⟨c.target.object,c.target.property,handle,.connection number⟩ := by
    rw [Connection.registration?,hhandle]
    rfl
  refine decide_eq_decide.mpr ⟨fun hlistener => ?_,fun hleft => ?_⟩
  · obtain rfl := Option.some.inj (hown.symm.trans ((mem_registered hl hc).mp ⟨hr,hlistener⟩))
    exact ⟨decide_eq_true ⟨rfl,rfl⟩,rfl⟩
  · obtain ⟨hat,hsame⟩ := hleft
    obtain ⟨hmem,-⟩ := (mem_registered hl hc).mpr hown
    obtain ⟨hobject,-⟩ := of_decide_eq_true hat
    rw [h.unique hr hmem hobject hsame]

lemma ends_ended_of_none (hl : LinkedAt history g number) (hc : g.connections.get? number = some c)
    (hhandle : c.handle = none) {r : Registration} (hr : r ∈ standing history) :
    (LiveEvent.ended number).ends r = false := by
  refine decide_eq_false fun hlistener => ?_
  have hown := (mem_registered hl hc).mp ⟨(standing_sublist history).subset hr,hlistener⟩
  rw [Connection.registration?,hhandle] at hown
  cases hown

end Listed

end QmlCodeModel
