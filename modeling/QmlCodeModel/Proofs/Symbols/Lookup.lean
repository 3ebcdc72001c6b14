import QmlCodeModel.Proofs.Grammar.Objects
import QmlCodeModel.Proofs.Symbols.Scopes

/-! What a name means at an offset of a source: the scopes around the offset are those on the way outward from
the last of them, and the innermost of these in which the name is declared decides. -/
namespace QmlCodeModel

namespace Scope

variable {s : Scope} {name : String} {d : Declaration}

/-- The last declaration of a name in a scope is this one. -/
def Declares (s : Scope) (name : String) (d : Declaration) : Prop :=
  ∃ before after, s.declarations = before ++ d :: after ∧ d.name = name ∧ ∀ e ∈ after, e.name ≠ name

/-- There is no declaration of a name in a scope. -/
def Lacks (s : Scope) (name : String) : Prop := ∀ d ∈ s.declarations, d.name ≠ name

lemma find?_eq_some_iff : s.find? name = some d ↔ s.Declares name d := by
  unfold find? Declares
  rw [List.find?_eq_some_iff_append]
  constructor
  · rintro ⟨hname,after,before,heq,hlater⟩
    refine ⟨before.reverse,after.reverse,?_,by simpa using hname,fun e he => ?_⟩
    · rw [← List.reverse_reverse s.declarations,heq]
      simp
    · simpa using hlater e (List.mem_reverse.mp he)
  · rintro ⟨before,after,heq,hname,hlater⟩
    refine ⟨by simpa using hname,after.reverse,before.reverse,?_,fun e he => ?_⟩
    · rw [heq]
      simp
    · simpa using hlater e (List.mem_reverse.mp he)

lemma find?_eq_none_iff : s.find? name = none ↔ s.Lacks name := by
  unfold find? Lacks
  simp [List.find?_eq_none]

lemma Declares.not_lacks (h : s.Declares name d) : ¬s.Lacks name := by
  obtain ⟨before,after,heq,hname,-⟩ := h
  exact fun hlacks => hlacks d (heq ▸ List.mem_append_right _ List.mem_cons_self) hname

end Scope

section outward

variable {frames : List Frame} {i j k : Nat} {f : Frame}

lemma outward_iff (hf : frames[k]? = some f) :
    Outward frames i k ↔ i = k ∨ ∃ j, f.parent = some j ∧ Outward frames i j := by
  constructor
  · rintro (_ | ⟨h,hparent,rest⟩)
    · exact .inl rfl
    · rw [hf] at h
      cases h
      exact .inr ⟨_,hparent,rest⟩
  · rintro (rfl | ⟨j,hparent,rest⟩)
    · exact .self
    · exact .parent hf hparent rest

/-- There is one way outward. -/
lemma Outward.total (h : Outward frames i k) (h' : Outward frames j k) :
    Outward frames i j ∨ Outward frames j i := by
  induction h with
  | self => exact .inr h'
  | @parent m k f hf hparent rest ih =>
    obtain rfl | ⟨m',hparent',h'⟩ := (outward_iff hf).mp h'
    · exact .inl (.parent hf hparent rest)
    · rw [hparent] at hparent'
      cases hparent'
      exact ih h'

end outward

namespace SymbolTables

variable {t : SymbolTables} {s : Scope} {d : Declaration} {name : String} {offset i k : Nat}

lemma getElem?_frames (t : SymbolTables) (i : Nat) : t.frames[i]? = t.scopes[i]?.map Scope.frame := by
  simp [frames]

lemma frame_of_scope (h : t.scopes[i]? = some s) : t.frames[i]? = some s.frame := by
  rw [getElem?_frames,h]
  rfl

/-- The scope at an offset is the last that contains it, or the global one if none does. -/
lemma scopeAt_cases (t : SymbolTables) (offset : Nat) :
    (t.scopeAt offset = 0 ∧ ∀ (i : Nat) (s : Scope), t.scopes[i]? = some s → ¬s.span.contains offset) ∨
    (∃ s : Scope, t.scopes[t.scopeAt offset]? = some s ∧ s.span.contains offset) ∧
      ∀ (i : Nat) (s : Scope), t.scopeAt offset < i → t.scopes[i]? = some s → ¬s.span.contains offset := by
  unfold scopeAt
  have hmem {i : Nat} {s : Scope} (hi : t.scopes[i]? = some s) : i ∈ (List.range t.scopes.size).reverse := by
    simpa using (Array.getElem?_eq_some_iff.mp hi).1
  cases hfind : (List.range t.scopes.size).reverse.find? fun i =>
      (t.scopes[i]?.map fun s => s.span.contains offset).getD false with
  | none =>
    refine .inl ⟨rfl,fun i s hi => ?_⟩
    have hnot := List.find?_eq_none.mp hfind i (hmem hi)
    simpa [hi] using hnot
  | some k =>
    obtain ⟨hk,before,after,heq,hbefore⟩ := List.find?_eq_some_iff_append.mp hfind
    refine .inr ⟨?_,fun i s hlt hi => ?_⟩
    · cases hs : t.scopes[k]? with
      | none => simp [hs] at hk
      | some s => exact ⟨s,hs,by simpa [hs] using hk⟩
    · have hsorted : (before ++ k :: after).Pairwise (· > ·) :=
        heq ▸ List.pairwise_reverse.mpr List.pairwise_lt_range
      have hmem := hmem hi
      rw [heq,List.mem_append,List.mem_cons] at hmem
      change k < i at hlt
      obtain hmem | rfl | hmem := hmem
      · simpa [hi] using hbefore i hmem
      · omega
      · have := (List.pairwise_cons.mp (List.pairwise_append.mp hsorted).2.1).1 i hmem
        omega

lemma scopeAt_lt (h : Scoped t.frames) (offset : Nat) : t.scopeAt offset < t.frames.length := by
  obtain ⟨g,hg,-⟩ := h.global
  obtain ⟨hzero,-⟩ | ⟨⟨s,hs,-⟩,-⟩ := t.scopeAt_cases offset
  · rw [hzero]
    exact (List.getElem?_eq_some_iff.mp hg).1
  · exact (List.getElem?_eq_some_iff.mp (frame_of_scope hs)).1

/-- The scopes around an offset, and the global one, are those on the way outward from the scope there. -/
theorem outward_scopeAt_iff (h : Scoped t.frames) (hs : t.scopes[i]? = some s) :
    Outward t.frames i (t.scopeAt offset) ↔ i = 0 ∨ s.span.contains offset := by
  have hlt := scopeAt_lt h offset
  constructor
  · intro hout
    obtain ⟨hzero,-⟩ | ⟨⟨s',hs',hcontains⟩,-⟩ := t.scopeAt_cases offset
    · exact .inl (Nat.le_zero.mp (hzero ▸ h.le_of_outward hout))
    · exact h.contains_of_outward hout (frame_of_scope hs') hcontains (frame_of_scope hs)
  · rintro (rfl | hcontains)
    · exact h.outward_zero hlt
    obtain ⟨-,hnone⟩ | ⟨⟨s',hs',hcontains'⟩,hlast⟩ := t.scopeAt_cases offset
    · exact absurd hcontains (hnone i s hs)
    have hle : i ≤ t.scopeAt offset := by
      by_contra hlt
      exact hlast i s (by omega) hs hcontains
    obtain rfl | hout := h.outward i _ _ _ offset hle (frame_of_scope hs) (frame_of_scope hs') hcontains hcontains'
    · exact h.outward_zero hlt
    · exact hout

/-- The name is declared in this scope on the way outward from another one, and in none before it. -/
structure Nearest (t : SymbolTables) (name : String) (k i : Nat) (d : Declaration) : Prop where
  outward : Outward t.frames i k
  declares : ∃ s, t.scopes[i]? = some s ∧ s.Declares name d
  lacks : ∀ j s, Outward t.frames j k → Outward t.frames i j → j ≠ i → t.scopes[j]? = some s → s.Lacks name

lemma Nearest.unique {i' : Nat} {d' : Declaration} (h : t.Nearest name k i d) (h' : t.Nearest name k i' d') :
    d = d' := by
  obtain ⟨s,hs,hd⟩ := h.declares
  obtain ⟨s',hs',hd'⟩ := h'.declares
  by_cases heq : i = i'
  · subst heq
    rw [hs] at hs'
    cases hs'
    rw [← Scope.find?_eq_some_iff] at hd hd'
    exact Option.some.inj (hd.symm.trans hd')
  · obtain hout | hout := h.outward.total h'.outward
    · exact absurd (h.lacks i' s' h'.outward hout (Ne.symm heq) hs') hd'.not_lacks
    · exact absurd (h'.lacks i s h.outward hout heq hs) hd.not_lacks

/-- Going outward, a name is found in the first scope that declares it. -/
lemma lookupFrom_cases (h : Scoped t.frames) (name : String) {steps : Nat} (hk : k < steps)
    (hlt : k < t.frames.length) :
    (∃ d i, t.lookupFrom name steps k = some d ∧ t.Nearest name k i d) ∨
      t.lookupFrom name steps k = none ∧ ∀ i s, Outward t.frames i k → t.scopes[i]? = some s → s.Lacks name := by
  induction steps generalizing k with
  | zero => exact absurd hk (Nat.not_lt_zero k)
  | succ steps ih =>
    obtain ⟨s,hs⟩ : ∃ s, t.scopes[k]? = some s :=
      ⟨_,Array.getElem?_eq_getElem (by rwa [← length_frames])⟩
    have hf := frame_of_scope hs
    rw [lookupFrom,hs]
    simp only [bind,Option.bind]
    cases hfind : s.find? name with
    | some d =>
      refine .inl ⟨d,k,rfl,.self,⟨_,hs,Scope.find?_eq_some_iff.mp hfind⟩,fun j s hj hkj hne _ => ?_⟩
      exact absurd (Nat.le_antisymm (h.le_of_outward hj) (h.le_of_outward hkj)) hne
    | none =>
      have hlacks := Scope.find?_eq_none_iff.mp hfind
      have hbeyond {i : Nat} {s' : Scope} (hi : Outward t.frames i k) (hs' : t.scopes[i]? = some s') :
          s'.Lacks name ∨ ∃ p, s.parent = some p ∧ Outward t.frames i p := by
        refine ((outward_iff hf).mp hi).imp_left ?_
        rintro rfl
        rw [hs] at hs'
        cases hs'
        exact hlacks
      cases hparent : s.parent with
      | none =>
        refine .inr ⟨rfl,fun i s' hi hs' => (hbeyond hi hs').resolve_right ?_⟩
        simp [hparent]
      | some p =>
        have hp := h.parent_lt hf hparent
        simp only [hparent,Option.some.injEq,exists_eq_left'] at hbeyond
        obtain ⟨d,i,hlookup,hnearest⟩ | ⟨hlookup,hnone⟩ := ih (by omega : p < steps) (by omega)
        · refine .inl ⟨d,i,hlookup,.parent hf hparent hnearest.outward,hnearest.declares,fun j s' hj hij hne hs' => ?_⟩
          obtain hlacks | hj := hbeyond hj hs'
          · exact hlacks
          · exact hnearest.lacks j s' hj hij hne hs'
        · refine .inr ⟨hlookup,fun i s' hi hs' => ?_⟩
          obtain hlacks | hi := hbeyond hi hs'
          · exact hlacks
          · exact hnone i s' hi hs'

lemma lookup_cases (h : Scoped t.frames) (name : String) (offset : Nat) :
    (∃ d i, t.lookup name offset = some d ∧ t.Nearest name (t.scopeAt offset) i d) ∨
      t.lookup name offset = none ∧
        ∀ i s, Outward t.frames i (t.scopeAt offset) → t.scopes[i]? = some s → s.Lacks name :=
  have hlt := scopeAt_lt h offset
  lookupFrom_cases h name (length_frames t ▸ hlt) hlt

/-- At an offset, a name means what it means in the nearest scope. -/
lemma lookup_eq_some_iff (h : Scoped t.frames) :
    t.lookup name offset = some d ↔ ∃ i, t.Nearest name (t.scopeAt offset) i d := by
  obtain ⟨d',i',hlookup,hfound⟩ | ⟨hlookup,hnone⟩ := lookup_cases h name offset
  · rw [hlookup]
    constructor
    · rintro ⟨⟩
      exact ⟨i',hfound⟩
    · rintro ⟨i,hnearest⟩
      exact congrArg some (hfound.unique hnearest)
  · rw [hlookup]
    refine ⟨nofun,?_⟩
    rintro ⟨i,hnearest⟩
    obtain ⟨s,hs,hd⟩ := hnearest.declares
    exact absurd (hnone i s hnearest.outward hs) hd.not_lacks

/-- Nothing is found where neither a scope around the offset nor the global one declares the name. -/
lemma lookup_eq_none_iff (h : Scoped t.frames) : t.lookup name offset = none ↔
    ∀ i s, t.scopes[i]? = some s → (i = 0 ∨ s.span.contains offset) → s.Lacks name := by
  obtain ⟨d,i,hlookup,hfound⟩ | ⟨hlookup,hnone⟩ := lookup_cases h name offset
  · rw [hlookup]
    refine ⟨nofun,fun hlacks => ?_⟩
    obtain ⟨s,hs,hd⟩ := hfound.declares
    exact absurd (hlacks i s hs ((outward_scopeAt_iff h hs).mp hfound.outward)) hd.not_lacks
  · exact ⟨fun _ i s hs hi => hnone i s ((outward_scopeAt_iff h hs).mpr hi) hs,fun _ => hlookup⟩

/-- The nearest scope is the innermost of those around the offset that declare the name. -/
lemma nearest_scopeAt_iff (h : Scoped t.frames) : t.Nearest name (t.scopeAt offset) i d ↔
    ∃ s, t.scopes[i]? = some s ∧ (i = 0 ∨ s.span.contains offset) ∧ s.Declares name d ∧
      ∀ j s', t.scopes[j]? = some s' → s'.span.contains offset → Outward t.frames i j → j ≠ i →
        s'.Lacks name := by
  constructor
  · rintro ⟨hi,⟨s,hs,hd⟩,hlacks⟩
    refine ⟨s,hs,(outward_scopeAt_iff h hs).mp hi,hd,fun j s' hs' hcontains hij hne => ?_⟩
    exact hlacks j s' ((outward_scopeAt_iff h hs').mpr (.inr hcontains)) hij hne hs'
  · rintro ⟨s,hs,hi,hd,hlacks⟩
    refine ⟨(outward_scopeAt_iff h hs).mpr hi,⟨s,hs,hd⟩,fun j s' hj hij hne hs' => ?_⟩
    obtain rfl | hcontains := (outward_scopeAt_iff h hs').mp hj
    · exact absurd (Nat.le_zero.mp (h.le_of_outward hij)).symm hne
    · exact hlacks j s' hs' hcontains hij hne

/-- Only the global scope lies in no other one. -/
lemma parent_eq_none_iff (h : Scoped t.frames) (hs : t.scopes[i]? = some s) : s.parent = none ↔ i = 0 := by
  have hf := frame_of_scope hs
  cases i with
  | zero =>
    obtain ⟨f,hf',hnone⟩ := h.global
    rw [hf] at hf'
    cases hf'
    exact ⟨fun _ => rfl,fun _ => hnone⟩
  | succ k =>
    obtain ⟨j,hparent,-⟩ := h.parent k _ hf
    exact ⟨fun hnone => absurd (hnone.symm.trans hparent) nofun,nofun⟩

/-- The scopes of a sound tree lie inside one another. -/
theorem scoped_ofRoot {root : Node} (h : root.Sound) (hlayered : root.Layered) : Scoped (ofRoot root).frames := by
  have hframes : (openScope {} .global root.span none).frames = [⟨root.span, none⟩] := frames_openScope {} _ _ _
  have hfirst {k : Nat} {f : Frame} (hk : (openScope {} .global root.span none).frames[k]? = some f) : k = 0 := by
    have := (List.getElem?_eq_some_iff.mp hk).1
    rw [hframes,List.length_singleton] at this
    omega
  refine (enters_member none root _ ⟨⟨?_,?_,?_⟩,?_,?_,?_,List.pairwise_singleton _ _⟩).nested
  · exact ⟨_,by rw [hframes]; rfl,rfl⟩
  · intro k f hk
    cases hfirst hk
  · exact fun i _ _ _ _ _ hi _ _ _ => .inl (hfirst hi)
  · exact ⟨_,by rw [hframes]; rfl,.inl rfl⟩
  · exact fun i f hi _ _ _ => .inl (hfirst hi)
  · simpa using ⟨h,hlayered⟩

end SymbolTables

/-- The scopes around an offset are those on the way outward from the scope there, which leads to ever smaller
numbers and to the global scope. What a name means there is its last declaration in the innermost of them
that declares it, and nothing if none does. -/
theorem Parse.lookup_innermost {form : SourceForm} {source : String} {p : Parse}
    (h : parse? form source = some p) (lines : LineIndex) (directory : Option Path) (offset : Nat) :
    let t := (p.symbols lines directory).tables
    (∀ i s, t.scopes[i]? = some s → (s.parent = none ↔ i = 0) ∧ ∀ j, s.parent = some j → j < i) ∧
    (∀ i s, t.scopes[i]? = some s → s.span.contains offset → Outward t.frames i (t.scopeAt offset)) ∧
    (∀ i s, t.scopes[i]? = some s → Outward t.frames i (t.scopeAt offset) → i = 0 ∨ s.span.contains offset) ∧
    Outward t.frames 0 (t.scopeAt offset) ∧
    ∀ name,
      (∀ d, t.lookup name offset = some d ↔ ∃ i s, t.scopes[i]? = some s ∧ (i = 0 ∨ s.span.contains offset) ∧
        s.Declares name d ∧ ∀ j s', t.scopes[j]? = some s' → s'.span.contains offset → Outward t.frames i j →
          j ≠ i → s'.Lacks name) ∧
      (t.lookup name offset = none ↔
        ∀ i s, t.scopes[i]? = some s → (i = 0 ∨ s.span.contains offset) → s.Lacks name) := by
  intro t
  have hscoped : Scoped t.frames :=
    SymbolTables.scoped_ofRoot (Grammar.sound_of_parse? h) (Grammar.layered_of_parse? h)
  have hout {i : Nat} {s : Scope} (hs : t.scopes[i]? = some s) :
      Outward t.frames i (t.scopeAt offset) ↔ i = 0 ∨ s.span.contains offset :=
    SymbolTables.outward_scopeAt_iff hscoped hs
  refine ⟨fun i s hs => ⟨SymbolTables.parent_eq_none_iff hscoped hs,fun j hj => ?_⟩,
    fun i s hs hcontains => (hout hs).mpr (.inr hcontains),fun i s hs => (hout hs).mp,
    hscoped.outward_zero (SymbolTables.scopeAt_lt hscoped offset),
    fun name => ⟨fun d => ?_,SymbolTables.lookup_eq_none_iff hscoped⟩⟩
  · exact hscoped.parent_lt (SymbolTables.frame_of_scope hs) hj
  · rw [SymbolTables.lookup_eq_some_iff hscoped]
    exact exists_congr fun i => SymbolTables.nearest_scopeAt_iff hscoped

/-- A name that is declared in a block and around it, looked for in the block. -/
theorem Parse.lookup_innermost_block : ∃ p, parse? .program "let a;\x7blet a;\x7d" = some p ∧
    ∀ lines directory, let t := (p.symbols lines directory).tables
    (t.lookup "a" 8).map Declaration.span = some ⟨11, 12⟩ ∧
    ∀ i s, t.scopes[i]? = some s → s.span.contains 8 → Outward t.frames i (t.scopeAt 8) := by
  have h : (parse? .program "let a;\x7blet a;\x7d").any fun p =>
      ((SymbolTables.ofRoot p.root).lookup "a" 8).map Declaration.span = some ⟨11, 12⟩ := by
    decide +kernel
  obtain ⟨p,hp,hspan⟩ := (Option.any_eq_true _ _).mp h
  exact ⟨p,hp,fun lines directory =>
    ⟨of_decide_eq_true hspan,(Parse.lookup_innermost hp lines directory 8).2.1⟩⟩

end QmlCodeModel
