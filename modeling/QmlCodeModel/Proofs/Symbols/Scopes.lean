import QmlCodeModel.Proofs.Symbols.Steps

/-! The scopes of a tree, each with the scope around it. They are opened in the order of the source, so that
those around an offset stand on one way outward, which starts at the last of them. -/
namespace QmlCodeModel

/-- A scope without what is declared in it. -/
structure Frame where
  span : Span
  parent : Option Nat
  deriving DecidableEq

def Scope.frame (s : Scope) : Frame := ⟨s.span, s.parent⟩

/-- The scopes so far. -/
def SymbolTables.frames (t : SymbolTables) : List Frame := t.scopes.toList.map Scope.frame

/-- One span lies in another, unless it is empty. -/
def Span.Within (s t : Span) : Prop := s.start < s.stop → t.start ≤ s.start ∧ s.stop ≤ t.stop

/-- The scope `i` is met on the way outward from the scope `k`, or is that. -/
inductive Outward (frames : List Frame) (i : Nat) : Nat → Prop
  | self : Outward frames i i
  | parent {j k : Nat} {f : Frame} (h : frames[k]? = some f) (hparent : f.parent = some j)
    (rest : Outward frames i j) : Outward frames i k

lemma Outward.append {frames : List Frame} {i k : Nat} (h : Outward frames i k) (later : List Frame) :
    Outward (frames ++ later) i k := by
  induction h with
  | self => exact .self
  | @parent j k f h hparent rest ih =>
    refine .parent ?_ hparent ih
    rw [List.getElem?_append_left (List.getElem?_eq_some_iff.mp h).1]
    exact h

/-- Scopes inside one another, all of them in the first. Those around an offset stand on one way outward. -/
structure Scoped (frames : List Frame) : Prop where
  global : ∃ f, frames[0]? = some f ∧ f.parent = none
  parent : ∀ k f, frames[k + 1]? = some f → ∃ j, f.parent = some j ∧ j ≤ k ∧
    (j = 0 ∨ ∀ g, frames[j]? = some g → f.span.Within g.span)
  outward : ∀ i j f g offset, i ≤ j → frames[i]? = some f → frames[j]? = some g →
    f.span.contains offset → g.span.contains offset → i = 0 ∨ Outward frames i j

namespace Scoped

variable {frames : List Frame} {i j k offset : Nat} {f g : Frame}

/-- Every way outward ends at the global scope. -/
lemma outward_zero (h : Scoped frames) (hk : k < frames.length) : Outward frames 0 k := by
  induction k using Nat.strongRecOn with
  | ind k ih =>
    cases k with
    | zero => exact .self
    | succ k =>
      have hf := List.getElem?_eq_getElem hk
      obtain ⟨j,hparent,hle,-⟩ := h.parent k _ hf
      exact .parent hf hparent (ih j (by omega) (by omega))

lemma parent_lt (h : Scoped frames) (hf : frames[k]? = some f) (hparent : f.parent = some j) : j < k := by
  cases k with
  | zero =>
    obtain ⟨g,hg,hnone⟩ := h.global
    rw [hf] at hg
    cases hg
    rw [hparent] at hnone
    cases hnone
  | succ k =>
    obtain ⟨_,hparent',hle,-⟩ := h.parent k f hf
    rw [hparent] at hparent'
    cases hparent'
    omega

lemma le_of_outward (h : Scoped frames) (hik : Outward frames i k) : i ≤ k := by
  induction hik with
  | self => exact Nat.le_refl _
  | parent hf hparent rest ih => exact Nat.le_trans ih (Nat.le_of_lt (h.parent_lt hf hparent))

/-- The scopes on the way outward from one that contains an offset contain it too, but for the global one. -/
lemma contains_of_outward (h : Scoped frames) (hik : Outward frames i k) (hf : frames[k]? = some f)
    (hcontains : f.span.contains offset) (hg : frames[i]? = some g) : i = 0 ∨ g.span.contains offset := by
  induction hik generalizing f with
  | self =>
    rw [hf] at hg
    cases hg
    exact .inr hcontains
  | @parent j k f' h' hparent rest ih =>
    rw [hf] at h'
    cases h'
    have hlt := h.parent_lt hf hparent
    obtain ⟨k,rfl⟩ : ∃ m, k = m + 1 := ⟨k - 1,by omega⟩
    obtain ⟨_,hparent',hle,hwithin⟩ := h.parent k _ hf
    rw [hparent] at hparent'
    cases hparent'
    have hj : j < frames.length := Nat.lt_trans hlt (List.getElem?_eq_some_iff.mp hf).1
    obtain rfl | hwithin := hwithin
    · exact .inl (Nat.le_zero.mp (h.le_of_outward rest))
    · obtain ⟨hstart,hstop⟩ := Span.contains_iff.mp hcontains
      have hinside := hwithin _ (List.getElem?_eq_getElem hj) (by omega)
      exact ih (List.getElem?_eq_getElem hj) (Span.contains_iff.mpr ⟨by omega,by omega⟩)

/-- One more scope is opened. All scopes that it shares an offset with lie around it. -/
lemma push (h : Scoped frames) (hj : frames[j]? = some g) (hwithin : j = 0 ∨ f.span.Within g.span)
    (hparent : f.parent = some j) (hpassed : ∀ i f' offset, frames[i]? = some f' → f'.span.contains offset →
      f.span.contains offset → i = 0 ∨ Outward frames i j) : Scoped (frames ++ [f]) := by
  have hlt : j < frames.length := (List.getElem?_eq_some_iff.mp hj).1
  have hlast : (frames ++ [f])[frames.length]? = some f := by simp
  have hold {k : Nat} (hk : k < frames.length) : (frames ++ [f])[k]? = frames[k]? :=
    List.getElem?_append_left hk
  have hcases {k : Nat} {f' : Frame} (hk : (frames ++ [f])[k]? = some f') :
      frames[k]? = some f' ∨ k = frames.length ∧ f' = f := by
    obtain hk' | rfl | hk' := Nat.lt_trichotomy k frames.length
    · exact .inl (hold hk' ▸ hk)
    · rw [hlast] at hk
      cases hk
      exact .inr ⟨rfl,rfl⟩
    · have := (List.getElem?_eq_some_iff.mp hk).1
      simp only [List.length_append,List.length_singleton] at this
      omega
  refine ⟨?_,?_,?_⟩
  · obtain ⟨g',hg,hnone⟩ := h.global
    exact ⟨g',(hold (by omega)).trans hg,hnone⟩
  · intro k f' hk
    obtain hk | ⟨hk,rfl⟩ := hcases hk
    · obtain ⟨i,hi,hle,hinside⟩ := h.parent k f' hk
      have hlength := (List.getElem?_eq_some_iff.mp hk).1
      exact ⟨i,hi,hle,hinside.imp_right fun hinside g' hg => hinside g' ((hold (by omega)).symm.trans hg)⟩
    · refine ⟨j,hparent,by omega,hwithin.imp_right fun hwithin g' hg => ?_⟩
      rw [hold hlt,hj] at hg
      cases hg
      exact hwithin
  · intro i k f' g' offset hle hi hk hcontains hcontains'
    obtain hk | ⟨rfl,rfl⟩ := hcases hk
    · have hlength := (List.getElem?_eq_some_iff.mp hk).1
      have hi := (hold (Nat.lt_of_le_of_lt hle hlength)).symm.trans hi
      exact (h.outward i k f' g' offset hle hi hk hcontains hcontains').imp_right (·.append [f])
    · obtain hi | ⟨rfl,rfl⟩ := hcases hi
      · refine (hpassed i f' offset hi hcontains hcontains').imp_right fun hout => ?_
        exact .parent hlast hparent (hout.append [g'])
      · exact .inr .self

end Scoped

/-- The scripts in a node lie in a span. -/
def Span.Holds (s : Span) (n : Node) : Prop := ∀ x ∈ n.walk, x.kind.InScript → x.span.Within s

/-- These nodes come next inside a scope. Whatever scope goes on behind the start of one is around it. -/
structure Awaits (frames : List Frame) (scope : Nat) (nodes : List Node) : Prop where
  nested : Scoped frames
  room : ∃ g, frames[scope]? = some g ∧ (scope = 0 ∨ ∀ n ∈ nodes, g.span.Holds n)
  passed : ∀ i f, frames[i]? = some f → ∀ n ∈ nodes, n.span.start < f.span.stop →
    i = 0 ∨ Outward frames i scope
  sound : ∀ n ∈ nodes, n.Sound ∧ n.Layered
  apart : Apart nodes

/-- Scopes have been opened for these nodes, which do not end behind them. -/
structure Opens (nodes : List Node) (frames frames' : List Frame) : Prop where
  nested : Scoped frames'
  later : ∃ later, frames' = frames ++ later ∧
    ∀ f ∈ later, ∀ stop, (∀ n ∈ nodes, n.Below stop) → f.span.stop ≤ stop

namespace Opens

variable {frames frames' frames'' : List Frame} {nodes nodes' : List Node} {n : Node}

lemma of_eq (h : Scoped frames) (heq : frames' = frames) : Opens nodes frames frames' := by
  subst heq
  exact ⟨h,[],by simp⟩

lemma refl (h : Scoped frames) : Opens nodes frames frames := .of_eq h rfl

lemma of_below (h : Opens nodes frames frames')
    (hbelow : ∀ stop, (∀ n ∈ nodes', n.Below stop) → ∀ n ∈ nodes, n.Below stop) :
    Opens nodes' frames frames' := by
  obtain ⟨later,rfl,hstop⟩ := h.later
  exact ⟨h.nested,later,rfl,fun f hf stop h => hstop f hf stop (hbelow stop h)⟩

/-- What is opened for parts of a node is opened for the node. -/
lemma of_parts (h : Opens nodes frames frames') (hbelow : ∀ x ∈ nodes, x ∈ n.walk) : Opens [n] frames frames' :=
  h.of_below fun _ hstop x hx => (hstop n (List.mem_singleton_self n)).of_mem_walk (hbelow x hx)

/-- A scope of its own is opened for a node, and inside it what is opened for parts. -/
lemma around {parent : Option Nat} (h : Opens nodes (frames ++ [⟨n.span, parent⟩]) frames')
    (hbelow : ∀ x ∈ nodes, x ∈ n.walk) : Opens [n] frames frames' := by
  obtain ⟨later,rfl,hstop⟩ := (h.of_parts hbelow).later
  refine ⟨h.nested,⟨n.span, parent⟩ :: later,List.append_assoc _ _ _,fun f hf stop hbelow => ?_⟩
  obtain rfl | hf := List.mem_cons.mp hf
  · exact (hbelow n (List.mem_singleton_self n)).stop_le
  · exact hstop f hf stop hbelow

lemma trans (h : Opens nodes frames frames') (h' : Opens nodes' frames' frames'') :
    Opens (nodes ++ nodes') frames frames'' := by
  obtain ⟨later,rfl,hstop⟩ := h.later
  obtain ⟨later',rfl,hstop'⟩ := h'.later
  refine ⟨h'.nested,later ++ later',by simp,fun f hf stop hnodes => ?_⟩
  obtain hf | hf := List.mem_append.mp hf
  · exact hstop f hf stop fun n hn => hnodes n (List.mem_append_left _ hn)
  · exact hstop' f hf stop fun n hn => hnodes n (List.mem_append_right _ hn)

end Opens

namespace Awaits

variable {frames frames' : List Frame} {scope : Nat} {nodes : List Node} {n : Node}

/-- What lies below the nodes is awaited too. -/
lemma parts (h : Awaits frames scope nodes) {parts : List Node} (hparts : ∀ x ∈ parts, ∃ n ∈ nodes, x ∈ n.walk)
    (hapart : Apart parts) : Awaits frames scope parts where
  nested := h.nested
  room := by
    obtain ⟨g,hg,hholds⟩ := h.room
    refine ⟨g,hg,hholds.imp_right fun hholds x hx y hy => ?_⟩
    obtain ⟨n,hn,hbelow⟩ := hparts x hx
    exact hholds n hn y (Node.mem_walk_trans hbelow hy)
  passed i f hf x hx hlt := by
    obtain ⟨n,hn,hbelow⟩ := hparts x hx
    have := (h.sound n hn).1.start_le hbelow
    exact h.passed i f hf n hn (by omega)
  sound x hx := by
    obtain ⟨n,hn,hbelow⟩ := hparts x hx
    exact ⟨(h.sound n hn).1.of_mem_walk hbelow,(h.sound n hn).2.of_mem_walk hbelow⟩
  apart := hapart

lemma below (h : Awaits frames scope [n]) {parts : List Node} (hbelow : ∀ x ∈ parts, x ∈ n.walk)
    (hapart : Apart parts) : Awaits frames scope parts :=
  h.parts (fun x hx => ⟨n,List.mem_singleton_self n,hbelow x hx⟩) hapart

lemma init (nodes : List Node) {later : List Node} (h : Awaits frames scope (nodes ++ later)) :
    Awaits frames scope nodes :=
  h.parts (fun x hx => ⟨x,List.mem_append_left _ hx,x.mem_walk_self⟩) (List.pairwise_append.mp h.apart).1

/-- After some nodes, the others come next. -/
lemma after {later : List Node} (h : Awaits frames scope (nodes ++ later)) (hopens : Opens nodes frames frames') :
    Awaits frames' scope later := by
  obtain ⟨opened,rfl,hstop⟩ := hopens.later
  obtain ⟨g,hg,hholds⟩ := h.room
  have hlt := (List.getElem?_eq_some_iff.mp hg).1
  obtain ⟨-,hapart,hcross⟩ := List.pairwise_append.mp h.apart
  refine ⟨hopens.nested,⟨g,?_,?_⟩,?_,fun x hx => h.sound x (List.mem_append_right _ hx),hapart⟩
  · rw [List.getElem?_append_left hlt]
    exact hg
  · exact hholds.imp_right fun hholds x hx => hholds x (List.mem_append_right _ hx)
  · intro i f hf x hx hlt
    by_cases hi : i < frames.length
    · rw [List.getElem?_append_left hi] at hf
      exact (h.passed i f hf x (List.mem_append_right _ hx) hlt).imp_right (·.append opened)
    · rw [List.getElem?_append_right (by omega)] at hf
      have := hstop f (List.mem_of_getElem? hf) x.span.start fun y hy => hcross y hy x hx
      omega

/-- A scope is opened for a node, and parts of that come next inside. -/
lemma opened (h : Awaits frames scope [n]) (hn : n.kind.InScript) {parts : List Node}
    (hparts : ∀ x ∈ parts, x ∈ n.walk) (hapart : Apart parts) :
    Awaits (frames ++ [⟨n.span, some scope⟩]) frames.length parts := by
  obtain ⟨g,hg,hholds⟩ := h.room
  obtain ⟨hsound,hlayered⟩ := h.sound n (List.mem_singleton_self n)
  have hnew : (frames ++ [⟨n.span, some scope⟩])[frames.length]? = some ⟨n.span, some scope⟩ := by simp
  refine ⟨?_,⟨_,hnew,.inr fun x hx y hy hscript hlt => ?_⟩,?_,fun x hx => ?_,hapart⟩
  · refine h.nested.push hg ?_ rfl fun i f offset hf hcontains hcontains' => ?_
    · exact hholds.imp_right fun hholds => hholds n (List.mem_singleton_self n) n n.mem_walk_self hn
    · refine h.passed i f hf n (List.mem_singleton_self n) ?_
      exact Nat.lt_of_le_of_lt (Span.contains_iff.mp hcontains').1 (Span.contains_iff.mp hcontains).2
  · exact hsound.inside (Node.mem_walk_trans (hparts x hx) hy) hscript hlt
  · intro i f hf x hx hlt
    by_cases hi : i < frames.length
    · rw [List.getElem?_append_left hi] at hf
      have hstart := hsound.start_le (hparts x hx)
      refine (h.passed i f hf n (List.mem_singleton_self n) (by omega)).imp_right fun hout => ?_
      exact .parent hnew rfl (hout.append _)
    · have := (List.getElem?_eq_some_iff.mp hf).1
      simp only [List.length_append,List.length_singleton] at this
      obtain rfl : i = frames.length := by omega
      exact .inr .self
  · exact ⟨hsound.of_mem_walk (hparts x hx),hlayered.of_mem_walk (hparts x hx)⟩

end Awaits

namespace SymbolTables

variable {t : SymbolTables} {c : Surroundings} {nodes : List Node} {n : Node}

/-! What opens no scope. -/

lemma frames_declare (t : SymbolTables) (scope : Nat) (d : Declaration) :
    (t.declare scope d).frames = t.frames :=
  map_modify_same _ _ _ fun _ => rfl

lemma frames_openScope (t : SymbolTables) (kind : ScopeKind) (span : Span) (parent : Option Nat) :
    (t.openScope kind span parent).frames = t.frames ++ [⟨span, parent⟩] := by
  simp [frames,openScope,Scope.frame]

lemma length_frames (t : SymbolTables) : t.frames.length = t.scopes.size := by
  simp [frames]

lemma scope_inside (t : SymbolTables) (c : Surroundings) (kind : ScopeKind) :
    (t.inside c kind).scope = t.frames.length := by
  rw [length_frames]
  cases kind <;> rfl

lemma frames_header (t : SymbolTables) (n : Node) : (t.header n).frames = t.frames := by
  unfold header
  split
  · exact frames_declare t _ _
  · rfl

/-! Objects have no part in the scopes. -/

lemma scopes_addMember (t : SymbolTables) (object : Option Nat) (name : String) (kind : ObjectMemberKind)
    (n : Node) : (t.addMember object name kind n).scopes = t.scopes := by
  cases object <;> rfl

lemma scopes_bindId (t : SymbolTables) (object : Nat) (statement : Node) :
    (t.bindId object statement).scopes = t.scopes := by
  obtain ⟨faults,h | ⟨name,h⟩⟩ := t.bindId_cases object statement <;> rw [h]

lemma frames_of_scopes {t t' : SymbolTables} (h : t'.scopes = t.scopes) : t'.frames = t.frames := by
  unfold frames
  rw [h]

lemma frames_addMember (t : SymbolTables) (object : Option Nat) (name : String) (kind : ObjectMemberKind)
    (n : Node) : (t.addMember object name kind n).frames = t.frames :=
  frames_of_scopes (scopes_addMember t object name kind n)

lemma frames_bindId (t : SymbolTables) (object : Nat) (statement : Node) :
    (t.bindId object statement).frames = t.frames :=
  frames_of_scopes (scopes_bindId t object statement)

/-! Scripts. -/

/-- What a deed enters. -/
def act (c : Surroundings) (t : SymbolTables) : Deed → SymbolTables
  | .declare reach d => t.declare (c.reach reach) d
  | .visit part => t.script c part

/-- What a step enters. -/
def perform (c : Surroundings) (t : SymbolTables) : Step → SymbolTables
  | .deed d => t.act c d
  | .scoped kind span deeds => deeds.foldl (act (t.inside c kind)) (t.openScope kind span (some c.scope))

lemma script_eq (c : Surroundings) (t : SymbolTables) (n : Node) :
    t.script c n = n.scopeSteps.foldl (perform c) t := by
  rw [script,← List.foldl_attach (l := n.scopeSteps)]
  congr 1
  funext t x
  obtain ⟨deed | ⟨kind,span,deeds⟩,hstep⟩ := x
  · cases deed <;> rfl
  · change _ = deeds.foldl (act (t.inside c kind)) _
    rw [← List.foldl_attach (l := deeds)]
    simp only
    congr 1
    funext t x
    obtain ⟨deed,hdeed⟩ := x
    cases deed <;> rfl

/-- Wherever a node comes next, its scopes are opened. -/
def Enters (f : SymbolTables → Node → SymbolTables) (scope : Nat) (n : Node) : Prop :=
  ∀ t : SymbolTables, Awaits t.frames scope [n] → Opens [n] t.frames (f t n).frames

lemma opens_foldl {f : SymbolTables → Node → SymbolTables} {scope : Nat} (hf : ∀ n ∈ nodes, Enters f scope n)
    (h : Awaits t.frames scope nodes) : Opens nodes t.frames (nodes.foldl f t).frames := by
  induction nodes generalizing t with
  | nil => exact .refl h.nested
  | cons n nodes ih =>
    have hopens := hf n List.mem_cons_self t (h.init [n])
    exact hopens.trans (ih (fun x hx => hf x (List.mem_cons_of_mem _ hx)) (h.after hopens))

lemma opens_deeds {deeds : List Deed} (hf : ∀ x ∈ deeds.filterMap Deed.part?, Enters (script c) c.scope x)
    (h : Awaits t.frames c.scope (deeds.filterMap Deed.part?)) :
    Opens (deeds.filterMap Deed.part?) t.frames (deeds.foldl (act c) t).frames := by
  induction deeds generalizing t with
  | nil => exact .refl h.nested
  | cons d deeds ih =>
    cases d with
    | declare reach d =>
      have hsame := frames_declare t (c.reach reach) d
      rw [← hsame] at h ⊢
      exact ih hf h
    | visit x =>
      have hopens := hf x List.mem_cons_self t (h.init [x])
      exact hopens.trans (ih (fun y hy => hf y (List.mem_cons_of_mem _ hy)) (h.after hopens))

/-- Steps that cover nodes open the scopes of these, if what they visit does. -/
lemma opens_steps {steps : List Step} (hcovers : Covers steps nodes)
    (hf : ∀ s ∈ steps, ∀ x ∈ s.deeds.filterMap Deed.part?, ∀ c, Enters (script c) c.scope x)
    (h : Awaits t.frames c.scope nodes) : Opens nodes t.frames (steps.foldl (perform c) t).frames := by
  induction hcovers generalizing t with
  | nil => exact .refl h.nested
  | declare reach d rest ih =>
    have hsame := frames_declare t (c.reach reach) d
    rw [← hsame] at h ⊢
    exact ih (fun s hs => hf s (List.mem_cons_of_mem _ hs)) h
  | visit n rest ih =>
    have hopens := hf _ List.mem_cons_self n (List.mem_singleton_self n) c t (h.init [n])
    exact hopens.trans (ih (fun s hs => hf s (List.mem_cons_of_mem _ hs)) (h.after hopens))
  | @opened steps nodes kind n deeds hscript below apart rest ih =>
    have hinside := (h.init [n]).opened hscript below apart
    rw [← frames_openScope t kind,← scope_inside t c kind] at hinside
    have hparts := opens_deeds (fun x hx => hf _ List.mem_cons_self x hx (t.inside c kind)) hinside
    rw [frames_openScope] at hparts
    have hopens : Opens [n] t.frames (t.perform c (.scoped kind n.span deeds)).frames := hparts.around below
    exact hopens.trans (ih (fun s hs => hf s (List.mem_cons_of_mem _ hs)) (h.after hopens))

/-- By induction on the size: a node of a script opens its scopes. -/
theorem enters_script (c : Surroundings) (n : Node) : Enters (script c) c.scope n := by
  induction hsize : sizeOf n using Nat.strongRecOn generalizing c n with
  | ind size ih =>
    subst hsize
    intro t h
    obtain ⟨hsound,hlayered⟩ := h.sound n (List.mem_singleton_self n)
    obtain ⟨parts,hcovers,hapart,hbelow⟩ := n.exists_covers_scopeSteps hsound hlayered
    have hopens := opens_steps hcovers (fun s hs x hx c => ?_) (h.below hbelow hapart)
    · rw [script_eq]
      exact hopens.of_parts hbelow
    · exact ih _ (Node.isNear_of_mem_scopeSteps hs (mem_parts_iff.mp hx)).sizeOf_lt c x rfl

/-! Documents. -/

lemma frames_addObject (t : SymbolTables) (node : Nat) (typeName : String) (parent : Option Nat) :
    (t.addObject node typeName parent).2.frames = t.frames := rfl

/-- Parts of a node that come one after the other open its scopes. -/
lemma opens_parts {f : SymbolTables → Node → SymbolTables} {parts : List Node} (hsub : parts.Sublist n.children)
    (hf : ∀ x ∈ parts, Enters f 0 x) (h : Awaits t.frames 0 [n]) : Opens [n] t.frames (parts.foldl f t).frames := by
  have hbelow : ∀ x ∈ parts, x ∈ n.walk := fun x hx =>
    Node.mem_walk_of_mem_children (hsub.subset hx) x.mem_walk_self
  have hapart : Apart parts := (h.sound n (List.mem_singleton_self n)).1.apart.sublist hsub
  exact (opens_foldl hf (h.below hbelow hapart)).of_parts hbelow

lemma enters_binding (n : Node) : Enters binding 0 n := by
  intro t h
  unfold binding
  split
  · rename_i statements hk
    obtain ⟨hsound,-⟩ := h.sound n (List.mem_singleton_self n)
    have hstatements : n.children = statements := by simp [Node.children,hk,Kind.children]
    have hbelow : ∀ x ∈ statements, x ∈ n.walk := fun x hx =>
      Node.mem_walk_of_mem_children (hstatements ▸ hx) x.mem_walk_self
    have hinside := h.opened (.inl (by simp [hk,Kind.isScript])) hbelow (hstatements ▸ hsound.apart)
    rw [← frames_openScope t .function,← scope_inside t {} .function] at hinside
    have hopens := opens_foldl (fun x _ => enters_script (t.inside {} .function) x) hinside
    rw [frames_openScope] at hopens
    exact hopens.around hbelow
  · exact enters_script {} n t h

/-- By induction on the tree: a node of a document opens its scopes. -/
theorem enters_member (object : Option Nat) (n : Node) : Enters (member object) 0 n := by
  induction n using Node.walk.induct generalizing object with
  | case1 n ih =>
    intro t h
    have hmembers {members : List Node} (hsub : members.Sublist n.children) {u : SymbolTables}
        (hu : u.frames = t.frames) : Opens [n] t.frames (members.foldl (member object) u).frames := by
      rw [← hu] at h ⊢
      exact opens_parts hsub (fun x hx => ih x (hsub.subset hx) object) h
    have honly {x : Node} {f : SymbolTables → Node → SymbolTables} (hx : n.children = [x]) (hf : Enters f 0 x)
        {u : SymbolTables} (hu : u.frames = t.frames) : Opens [n] t.frames (f u x).frames := by
      rw [← hu] at h ⊢
      exact opens_parts (hx ▸ List.Sublist.refl _) (List.forall_mem_singleton.mpr hf) h
    obtain ⟨id,span,kind⟩ := n
    rw [member]
    cases kind
    case document headers members =>
      simp only [Node.kind,foldl_attach_member]
      refine hmembers (List.sublist_append_right _ _) ?_
      exact view_foldl (v := frames) t fun x _ u => frames_header u x
    case objectDefinition typeName init =>
      exact honly (f := member _) rfl (ih init (List.mem_singleton_self init) _) rfl
    case objectBinding name typeName init on =>
      refine honly (f := member _) rfl (ih init (List.mem_singleton_self init) _) ?_
      exact (frames_addObject _ _ _ _).trans (frames_addMember _ _ _ _ _)
    case objectInitializer members =>
      simp only [Node.kind,foldl_attach_member]
      exact hmembers (List.Sublist.refl _) rfl
    case scriptBinding name statement =>
      refine honly rfl (enters_binding statement) ((frames_addMember _ _ _ _ _).trans ?_)
      exact view_naming (v := frames) frames_bindId t object name statement
    case arrayBinding name members brackets =>
      simp only [Node.kind,foldl_attach_member]
      exact hmembers (List.Sublist.refl _) (frames_addMember _ _ _ _ _)
    case publicMember m =>
      simp only [Node.kind,foldl_attach_member]
      have hsame := frames_addMember t object m.name.name (declaredKind m) (.mk id span (.publicMember m))
      obtain ⟨hsound,-⟩ := h.sound _ (List.mem_singleton_self _)
      have hbelow : ∀ x ∈ m.statement.toList ++ m.binding.toList, x ∈ (Node.mk id span (.publicMember m)).walk :=
        fun x hx => Node.mem_walk_of_mem_children hx x.mem_walk_self
      have hparts := h.below hbelow hsound.apart
      rw [← hsame] at hparts ⊢
      have hstatement := opens_foldl (fun x _ => enters_binding x) (hparts.init _)
      have hbinding := opens_foldl (fun x hx => ih x (List.mem_append_right _ hx) object) (hparts.after hstatement)
      exact (hstatement.trans hbinding).of_parts hbelow
    case sourceElement element =>
      refine honly rfl (enters_script {} element) ?_
      exact view_foldl (v := frames) t fun x _ u => frames_addMember u object _ _ _
    case enumDeclaration => exact .of_eq h.nested (frames_addMember t object _ _ _)
    case importing => exact .of_eq h.nested (frames_header t _)
    case pragma => exact .of_eq h.nested (frames_header t _)
    all_goals exact enters_script {} _ t h

end SymbolTables

end QmlCodeModel
