import QmlCodeModel.Proofs.Path.Plain

/-! Clean paths are a normal form. The steps of a path may be cleaned before others follow them, and before they
follow others; only a path that comes back to where it starts is lost when it is seen from a working directory. -/
namespace QmlCodeModel

namespace Path

variable {p q here : Path}

/-- The text of a path without detours: a slash for the root, steps up from elsewhere, then names. -/
def IsNormal (p : Path) : Prop :=
  ∃ (ups : Nat) (names : List String), (p.isAbsolute → ups = 0) ∧ (∀ name ∈ names, IsStep name) ∧
    p.text = (if p.isAbsolute then "/" else "") ++ "/".intercalate (List.replicate ups ".." ++ names)

def Component.isName : Component → Bool
  | .name _ => true
  | _ => false

/-- The relative path comes back to where it starts, and never leads above it. -/
structure LeadsBack (p : Path) : Prop where
  relative : ¬p.isAbsolute
  inside : ∀ steps, steps <+: p.components → steps.count .parent ≤ steps.countP Component.isName
  back : p.components.count .parent = p.components.countP Component.isName

/-- The steps of a clean path: steps up from elsewhere than the root, then names. -/
lemma exists_components_clean (p : Path) : ∃ (ups : Nat) (names : List String), (p.isAbsolute → ups = 0) ∧
    p.clean.components =
      (if p.isAbsolute then [.root] else []) ++ (List.replicate ups .parent ++ names.map .name) := by
  have h := clean_direct p
  refine ⟨p.direct.ups,p.direct.reversed.reverse,?_,?_⟩
  · rw [← absolute_direct_eq]
    exact h.ups
  · rw [← absolute_direct_eq]
    exact h.components

lemma current_notMem_clean (p : Path) : .current ∉ p.clean.components := by
  obtain ⟨ups,names,-,hcomponents⟩ := exists_components_clean p
  rw [hcomponents]
  split <;> simp

/-- Steps up stand in front of a clean path, and only of a relative one. -/
lemma parent_clean {i : Nat} (h : p.clean.components[i]? = some .parent) :
    ¬p.isAbsolute ∧ ∀ j ≤ i, p.clean.components[j]? = some .parent := by
  obtain ⟨ups,names,hups,hcomponents⟩ := exists_components_clean p
  rw [hcomponents] at h ⊢
  by_cases habsolute : p.isAbsolute
  · rw [if_pos habsolute,hups habsolute] at h
    have hmem := List.mem_of_getElem? h
    simp at hmem
  · rw [if_neg habsolute,List.nil_append] at h ⊢
    refine ⟨habsolute,fun j hj => ?_⟩
    obtain hlt | hge := Nat.lt_or_ge i (List.replicate ups Component.parent).length
    · rw [List.getElem?_append_left (Nat.lt_of_le_of_lt hj hlt),List.getElem?_replicate,if_pos]
      simpa using Nat.lt_of_le_of_lt hj hlt
    · rw [List.getElem?_append_right hge] at h
      have hmem := List.mem_of_getElem? h
      simp at hmem

/-- Cleaning changes nothing exactly where there is no detour. -/
lemma clean_eq_self_iff : p.clean = p ↔ p.IsNormal := by
  constructor
  · intro h
    have hdirect := clean_direct p
    refine ⟨p.direct.ups,p.direct.reversed.reverse,?_,?_,?_⟩
    · rw [← absolute_direct_eq]
      exact hdirect.ups
    · exact fun name hname => hdirect.names name (List.mem_reverse.mp hname)
    · conv_lhs => rw [← h]
      rw [← absolute_direct_eq]
      rfl
  · rintro ⟨ups,names,hups,hnames,htext⟩
    have hclean : Direct.Clean ⟨p.isAbsolute,ups,names.reverse⟩ :=
      ⟨hups,fun name hname => hnames name (List.mem_reverse.mp hname)⟩
    have hpath : Direct.toPath ⟨p.isAbsolute,ups,names.reverse⟩ = p := by
      rw [Direct.toPath,Direct.steps,List.reverse_reverse,← htext]
    conv_lhs => rw [clean,← hpath,hclean.direct_toPath]
    exact hpath

/-- What stands in front of other steps may be cleaned first. -/
lemma clean_join (p q : Path) : (p.join q).clean = (p.clean.join q).clean := by
  by_cases hq : q.isAbsolute
  · rw [join,join,if_pos hq,if_pos hq]
  · rw [clean,clean,direct_join hq,direct_join hq,show p.clean.direct = p.direct from (clean_direct p).direct_toPath]

lemma isStep_relative {name : String} (h : IsStep name) : ¬(Path.mk name).isAbsolute := fun habsolute =>
  h.slash (List.mem_of_mem_head? (eq_of_beq habsolute))

/-- A step up leaves the name before it. -/
lemma clean_join_parent {name : String} (h : IsStep name) (p : Path) :
    ((p.join ⟨name⟩).join ⟨".."⟩).clean = p.clean := by
  have hname : Component.ofParts (splitOnChar '/' name.toList) = [.name name] := by
    rw [splitOnChar_of_notMem h.slash]
    exact Component.ofParts_names (List.forall_mem_singleton.mpr h)
  rw [clean,direct_join (by decide),direct_join (isStep_relative h),hname]
  rfl

/-- Cleaning finds the normal form of a path: a clean path is clean, it starts where the path does, no single dot is
left in it, and steps up are left only in front of a relative path. What is in normal form stays as it is, a name and
a step up cancel, and what a path is joined to may be cleaned first. -/
theorem clean_normal (p q : Path) :
    p.clean.clean = p.clean ∧ (p.join q).clean = (p.clean.join q).clean ∧
    (p.clean.isAbsolute ↔ p.isAbsolute) ∧ Component.current ∉ p.clean.components ∧
    (∀ i : Nat, p.clean.components[i]? = some Component.parent →
      ¬p.isAbsolute ∧ ∀ j ≤ i, p.clean.components[j]? = some Component.parent) ∧
    (p.clean = p ↔ p.IsNormal) ∧ ∀ name, IsStep name → ((p.join ⟨name⟩).join ⟨".."⟩).clean = p.clean := by
  refine ⟨clean_clean p,clean_join p q,isAbsolute_clean_iff p,current_notMem_clean p,fun i => parent_clean,?_,?_⟩
  · exact clean_eq_self_iff
  · exact fun name hname => clean_join_parent hname p

theorem clean_normal_above : (Path.mk "a/../../b/.").clean.components[0]? = some Component.parent ∧
    ¬(Path.mk "a/../../b/.").isAbsolute ∧
      (((Path.mk "a/../../b/.").join ⟨"c"⟩).join ⟨".."⟩).clean = (Path.mk "a/../../b/.").clean := by
  obtain ⟨-,-,-,-,hups,-,hcancel⟩ := clean_normal ⟨"a/../../b/."⟩ ⟨"c"⟩
  have hfirst : (Path.mk "a/../../b/.").clean.components[0]? = some Component.parent := by decide +kernel
  exact ⟨hfirst,(hups 0 hfirst).1,hcancel "c" ⟨by decide,by decide,by decide,by decide⟩⟩

/-- The steps of a path without detours, but for the root. -/
def Direct.toComponents (d : Direct) : List Component :=
  List.replicate d.ups .parent ++ d.reversed.reverse.map .name

/-- One more step leads on in the same way behind any path. -/
lemma foldl_toComponents_step (e : Direct) {d : Direct} (hd : ¬d.absolute) {c : Component} (hc : c ≠ .root) :
    (d.step c).toComponents.foldl Direct.step e = (d.toComponents.foldl Direct.step e).step c := by
  cases c with
  | root => exact absurd rfl hc
  | current => rfl
  | name text => simp [Direct.toComponents,Direct.step]
  | parent =>
    cases hreversed : d.reversed with
    | cons text rest => simp [Direct.toComponents,Direct.step,hreversed]
    | nil => simp [Direct.toComponents,Direct.step,hreversed,hd,List.replicate_succ']

lemma foldl_toComponents (e : Direct) {steps : List Component} (hsteps : .root ∉ steps) {d : Direct}
    (hd : ¬d.absolute) : (steps.foldl Direct.step d).toComponents.foldl Direct.step e =
      steps.foldl Direct.step (d.toComponents.foldl Direct.step e) := by
  induction steps generalizing d with
  | nil => rfl
  | cons c rest ih =>
    rw [List.mem_cons,not_or] at hsteps
    have hstep := absolute_step (Ne.symm hsteps.1) d
    rw [List.foldl_cons,List.foldl_cons,ih hsteps.2 (by rwa [hstep]),foldl_toComponents_step e hd (Ne.symm hsteps.1)]

/-- What stands behind another path may be cleaned first. -/
lemma clean_join_clean (p q : Path) : (p.join q.clean).clean = (p.join q).clean := by
  by_cases hq : q.isAbsolute
  · rw [join,join,if_pos hq,if_pos (isAbsolute_clean hq),clean_clean]
  · have hclean : ¬q.clean.isAbsolute := (isAbsolute_clean_iff q).not.mpr hq
    have hrelative : ¬q.direct.absolute := by rwa [absolute_direct_eq]
    have hcomponents : Component.ofParts (splitOnChar '/' q.clean.text.toList) = q.direct.toComponents := by
      have htext : q.clean.text = "/".intercalate q.direct.steps := by simp [clean,Direct.toPath,hrelative]
      rw [htext,(clean_direct q).ofParts]
      rfl
    have hsteps := foldl_toComponents p.direct (root_notMem_ofParts (splitOnChar '/' q.text.toList))
      (d := { absolute := q.isAbsolute }) hq
    rw [← direct_eq] at hsteps
    change (p.join q.clean).direct.toPath = (p.join q).direct.toPath
    rw [direct_join hclean,direct_join hq,hcomponents,hsteps]
    rfl

lemma forall_prefix_cons {c : Component} {rest : List Component} {P : List Component → Prop} :
    (∀ first, first <+: c :: rest → P first) ↔ P [] ∧ ∀ first, first <+: rest → P (c :: first) := by
  simp only [List.prefix_cons_iff]
  constructor
  · exact fun h => ⟨h [] (.inl rfl),fun first hfirst => h _ (.inr ⟨first,rfl,hfirst⟩)⟩
  · rintro ⟨hnil,hcons⟩ first (rfl | ⟨first,rfl,hfirst⟩)
    · exact hnil
    · exact hcons first hfirst

/-- Nothing remains of steps exactly if they come back to where they start. -/
lemma foldl_eq_start_iff {steps : List Component} (hroot : .root ∉ steps) {d : Direct} (hd : ¬d.absolute) :
    (steps.foldl Direct.step d).ups = 0 ∧ (steps.foldl Direct.step d).reversed = [] ↔
      d.ups = 0 ∧ (∀ first, first <+: steps →
        first.count .parent ≤ d.reversed.length + first.countP Component.isName) ∧
      steps.count .parent = d.reversed.length + steps.countP Component.isName := by
  induction steps generalizing d with
  | nil => simp [eq_comm]
  | cons c rest ih =>
    rw [List.mem_cons,not_or] at hroot
    have hstep := absolute_step (Ne.symm hroot.1) d
    rw [List.foldl_cons,ih hroot.2 (by rwa [hstep]),forall_prefix_cons]
    cases c with
    | root => exact absurd rfl hroot.1
    | current => simp [Direct.step,Component.isName]
    | name text =>
      have hups (steps : List Component) : (.name text :: steps).count .parent = steps.count .parent :=
        List.count_cons_of_ne (by simp)
      have hnames (steps : List Component) : (.name text :: steps).countP Component.isName =
          1 + steps.countP Component.isName := (List.countP_cons_of_pos rfl).trans (Nat.add_comm _ _)
      simp only [Direct.step,hups,hnames,List.length_cons,List.count_nil,Nat.zero_le,true_and,Nat.add_assoc]
    | parent =>
      have hups (steps : List Component) : (.parent :: steps).count .parent = steps.count .parent + 1 :=
        List.count_cons_self
      have hnames (steps : List Component) : (.parent :: steps).countP Component.isName =
          steps.countP Component.isName := List.countP_cons_of_neg Bool.false_ne_true
      cases hreversed : d.reversed with
      | cons text later =>
        simp only [Direct.step,hreversed,hups,hnames,List.length_cons,List.count_nil,Nat.zero_le,true_and,
          Nat.add_right_comm later.length 1,Nat.add_le_add_iff_right,Nat.add_right_cancel_iff]
      | nil =>
        simp only [Direct.step,hreversed,hd,hups,hnames]
        -- A step up from the start is never taken back.
        refine iff_of_false (by simp) ?_
        rintro ⟨-,⟨-,hinside⟩,-⟩
        have hfirst := hinside [] List.nil_prefix
        simp at hfirst

lemma isEmpty_toPath_iff {d : Direct} (h : d.Clean) (hd : ¬d.absolute) :
    d.toPath.isEmpty ↔ d.ups = 0 ∧ d.reversed = [] := by
  constructor
  · intro hempty
    have hnone := h.components.symm.trans (components_of_isEmpty hempty)
    simpa [hd] using hnone
  · rintro ⟨hups,hreversed⟩
    simp [Direct.toPath,Direct.steps,isEmpty,hd,hups,hreversed]

lemma not_isEmpty_of_isAbsolute (h : p.isAbsolute) : ¬p.isEmpty := by
  intro hempty
  have hroot := components_of_isEmpty hempty
  rw [components,if_pos h] at hroot
  cases hroot

/-- Cleaning leaves nothing exactly of what comes back to where it starts. -/
lemma clean_isEmpty_iff (p : Path) : p.clean.isEmpty ↔ p.LeadsBack := by
  by_cases hp : p.isAbsolute
  · exact iff_of_false (not_isEmpty_of_isAbsolute (isAbsolute_clean hp)) fun h => h.relative hp
  · have hdirect : ¬p.direct.absolute := by rwa [absolute_direct_eq]
    have hstart := foldl_eq_start_iff (root_notMem_components hp) (d := {}) Bool.false_ne_true
    simp only [List.length_nil,Nat.zero_add,true_and] at hstart
    rw [clean,isEmpty_toPath_iff (clean_direct p) hdirect,direct,hstart]
    exact ⟨fun h => ⟨hp,h.1,h.2⟩,fun h => ⟨h.inside,h.back⟩⟩

lemma absolute_of_leadsBack (h : p.LeadsBack) (here : Path) : p.absolute here = ⟨""⟩ := by
  have hempty := (clean_isEmpty_iff p).mpr h
  rw [absolute,if_pos (by rw [hempty,Bool.or_true])]
  exact congrArg Path.mk (String.isEmpty_iff.mp hempty)

/-- What does not come back is cleaned behind the working directory. -/
lemma absolute_of_not_leadsBack (h : ¬p.LeadsBack) (here : Path) : p.absolute here = (here.join p).clean := by
  have hempty : ¬p.clean.isEmpty := (clean_isEmpty_iff p).not.mpr h
  by_cases hp : p.isAbsolute
  · rw [absolute_of_isAbsolute hp,join,if_pos hp]
  · have hclean : ¬p.clean.isAbsolute := (isAbsolute_clean_iff p).not.mpr hp
    rw [absolute,if_neg (by simp [hempty,hclean]),clean_join_clean]

lemma isAbsolute_absolute_iff (h : here.isAbsolute) (p : Path) : (p.absolute here).isAbsolute ↔ ¬p.LeadsBack := by
  by_cases hback : p.LeadsBack
  · rw [absolute_of_leadsBack hback]
    exact iff_of_false (by decide) (not_not_intro hback)
  · rw [absolute_of_not_leadsBack hback]
    exact iff_of_true (isAbsolute_clean (isAbsolute_join h p)) hback

/-- Seen from an absolute working directory a path is the clean path behind the directory, and absolute, exactly if it
does not come back to where it starts; else nothing is left of it. So two spellings of one place are seen alike
exactly if both or neither come back. -/
theorem absolute_eq_clean_join_iff (h : here.isAbsolute) (p q : Path) :
    (p.absolute here = (here.join p).clean ↔ ¬p.LeadsBack) ∧ ((p.absolute here).isAbsolute ↔ ¬p.LeadsBack) ∧
    (p.LeadsBack → p.absolute here = ⟨""⟩) ∧
    ((here.join p).clean = (here.join q).clean → (p.absolute here = q.absolute here ↔ (p.LeadsBack ↔ q.LeadsBack))) := by
  refine ⟨⟨fun heq => ?_,fun hback => absolute_of_not_leadsBack hback here⟩,isAbsolute_absolute_iff h p,
    fun hback => absolute_of_leadsBack hback here,fun hsame => ⟨fun heq => ?_,fun hiff => ?_⟩⟩
  · rw [← isAbsolute_absolute_iff h,heq]
    exact isAbsolute_clean (isAbsolute_join h p)
  · rw [← not_iff_not,← isAbsolute_absolute_iff h,← isAbsolute_absolute_iff h,heq]
  · by_cases hback : p.LeadsBack
    · rw [absolute_of_leadsBack hback,absolute_of_leadsBack (hiff.mp hback)]
    · rw [absolute_of_not_leadsBack hback,absolute_of_not_leadsBack (hiff.not.mp hback),hsame]

/-- Two spellings that climb above the working directory. -/
theorem absolute_eq_clean_join_above : (Path.mk "/w").isAbsolute ∧
    ((Path.mk "/w").join ⟨"a/../../b"⟩).clean = ((Path.mk "/w").join ⟨".././b"⟩).clean ∧
      (Path.mk "a/../../b").absolute ⟨"/w"⟩ = (Path.mk ".././b").absolute ⟨"/w"⟩ := by
  have hsame : ((Path.mk "/w").join ⟨"a/../../b"⟩).clean = ((Path.mk "/w").join ⟨".././b"⟩).clean := by decide +kernel
  have hleft : ¬(Path.mk "a/../../b").LeadsBack := fun h =>
    absurd (h.inside [.name "a",.parent,.parent] (by decide +kernel)) (by decide)
  have hright : ¬(Path.mk ".././b").LeadsBack := fun h => absurd (h.inside [.parent] (by decide +kernel)) (by decide)
  have hhere : (Path.mk "/w").isAbsolute := by decide
  obtain ⟨-,-,-,hiff⟩ := absolute_eq_clean_join_iff hhere ⟨"a/../../b"⟩ ⟨".././b"⟩
  exact ⟨hhere,hsame,(hiff hsame).mpr (iff_of_false hleft hright)⟩

/-- A path that stays where it is has no place of its own, although the directory has. -/
theorem absolute_current_isEmpty : (Path.mk ".").absolute ⟨"/"⟩ = ⟨""⟩ ∧ (Path.mk "a/..").absolute ⟨"/"⟩ = ⟨""⟩ ∧
    ((Path.mk "/").join ⟨"."⟩).clean = ⟨"/"⟩ ∧ ((Path.mk "/").join ⟨"a/.."⟩).clean = ⟨"/"⟩ := by
  decide +kernel

end Path
end QmlCodeModel
