import Mathlib.Data.List.Count
import Mathlib.Data.List.Induction
import QmlCodeModel.Proofs.Project.Revisions

/-! Editors that update a file at the same time. An update looks up the revision that is stored, makes its
document and stores it later. If another update is stored in between, both count on from the same revision, and
one of them is not counted. So all updates are counted exactly if no two of them overlap. -/
namespace QmlCodeModel

/-- The two steps of an update, by its number: its document is made from what is stored, and stored later. -/
inductive UpdateStep
  | make (i : Nat)
  | publish (i : Nat)
  deriving DecidableEq

namespace UpdateStep

variable {steps before : List UpdateStep} {s : UpdateStep} {i n : Nat}

def number : UpdateStep → Nat
  | make i => i
  | publish i => i

@[simp] lemma number_make (i : Nat) : (make i).number = i := rfl

@[simp] lemma number_publish (i : Nat) : (publish i).number = i := rfl

def isPublish : UpdateStep → Bool
  | make _ => false
  | publish _ => true

/-- So many updates take both their steps, in any order among each other. -/
structure Interleaved (n : Nat) (steps : List UpdateStep) : Prop where
  both : ∀ i < n, steps.filter (·.number = i) = [make i,publish i]
  known : ∀ s ∈ steps, s.number < n

/-- The updates follow one after the other. -/
def Serial (steps : List UpdateStep) : Prop :=
  ∃ order : List Nat, steps = order.flatMap fun i => [make i,publish i]

/-- An update may have come to its end, to its middle, or to nothing. -/
def Begun (steps : List UpdateStep) : Prop := ∀ i, steps.filter (·.number = i) <+: [make i,publish i]

/-- An update has come to its end or to nothing. -/
def Whole (steps : List UpdateStep) : Prop :=
  ∀ i, steps.filter (·.number = i) = [] ∨ steps.filter (·.number = i) = [make i,publish i]

lemma Whole.begun (h : Whole steps) : Begun steps := by
  intro i
  obtain h | h := h i
  · exact h ▸ List.nil_prefix
  · exact h ▸ List.prefix_rfl

lemma Begun.left {later : List UpdateStep} (h : Begun (before ++ later)) : Begun before := by
  intro i
  have hi := h i
  rw [List.filter_append] at hi
  exact (List.prefix_append _ _).trans hi

lemma Interleaved.whole (h : Interleaved n steps) : Whole steps := by
  intro i
  by_cases hi : i < n
  · exact .inr (h.both i hi)
  · refine .inl (List.filter_eq_nil_iff.mpr fun s hs heq => hi ?_)
    rw [← of_decide_eq_true heq]
    exact h.known s hs

/-- What is stored has been made before, and its update has taken no other step. -/
lemma Begun.split (h : Begun (before ++ [publish i])) : ∃ a b, before = a ++ make i :: b ∧
    (∀ s ∈ a, s.number ≠ i) ∧ ∀ s ∈ b, s.number ≠ i := by
  have hmade : before.filter (·.number = i) = [make i] := by
    obtain ⟨rest,hrest⟩ := h i
    rw [List.filter_append,List.filter_cons_of_pos (by simp [number])] at hrest
    cases hfilter : before.filter (·.number = i) with
    | nil =>
      rw [hfilter] at hrest
      cases hrest
    | cons s others =>
      rw [hfilter,List.filter_nil,List.cons_append,List.cons_append] at hrest
      obtain ⟨rfl,htail⟩ := List.cons.inj hrest
      have hlength := congrArg List.length htail
      simp only [List.length_append,List.length_cons,List.length_nil] at hlength
      rw [List.eq_nil_of_length_eq_zero (by omega : others.length = 0)]
  obtain ⟨a,b,rfl,ha,-,hb⟩ := List.filter_eq_cons_iff.mp hmade
  refine ⟨a,b,rfl,fun s hs => by simpa using ha s hs,fun s hs => ?_⟩
  simpa using List.filter_eq_nil_iff.mp hb s hs

/-- What another update takes after an update has been made, it brings to an end before that one is stored. -/
lemma Whole.publish_mem {a b : List UpdateStep} (h : Whole (a ++ make i :: b ++ [publish i])) (hs : s ∈ b)
    (hi : s.number ≠ i) : publish s.number ∈ b := by
  have hfilter : (a ++ make i :: b ++ [publish i]).filter (·.number = s.number) =
      a.filter (·.number = s.number) ++ b.filter (·.number = s.number) := by
    simp [Ne.symm hi]
  have hmem : s ∈ b.filter (·.number = s.number) := List.mem_filter.mpr ⟨hs,decide_eq_true rfl⟩
  obtain ⟨last,hlast⟩ := List.getLast?_isSome.mpr (List.ne_nil_of_mem hmem) |> Option.isSome_iff_exists.mp
  have hend := h s.number
  rw [hfilter] at hend
  obtain hend | hend := hend
  · rw [(List.append_eq_nil_iff.mp hend).2] at hmem
    cases hmem
  · have heq := congrArg List.getLast? hend
    rw [List.getLast?_append,hlast] at heq
    cases heq
    exact (List.mem_filter.mp (List.mem_of_getLast? hlast)).1

lemma Whole.left {a : List UpdateStep} (h : Whole (a ++ [make i] ++ [publish i]))
    (ha : ∀ s ∈ a, s.number ≠ i) : Whole a := by
  intro j
  by_cases hj : j = i
  · subst hj
    exact .inl (List.filter_eq_nil_iff.mpr fun s hs => by simpa using ha s hs)
  · have hend := h j
    rw [List.filter_append,List.filter_append,List.filter_singleton,List.filter_singleton] at hend
    simpa [Ne.symm hj] using hend

lemma Serial.concat (h : Serial steps) (i : Nat) : Serial (steps ++ [make i] ++ [publish i]) := by
  obtain ⟨order,rfl⟩ := h
  exact ⟨order ++ [i],by simp⟩

/-- Each of the updates is stored once. -/
lemma Interleaved.countP (h : Interleaved n steps) : steps.countP isPublish = n := by
  have hperm : (steps.filter isPublish).Perm ((List.range n).map publish) := by
    refine List.perm_iff_count.mpr fun s => ?_
    cases s with
    | make i =>
      rw [List.count_eq_zero_of_not_mem,List.count_eq_zero_of_not_mem] <;> simp [isPublish]
    | publish i =>
      have hnodup : ((List.range n).map publish).Nodup :=
        List.nodup_range.map fun a b hab => by cases hab; rfl
      rw [List.count_filter rfl,hnodup.count]
      by_cases hi : i < n
      · rw [← List.count_filter (p := (·.number = i)) (by simp [number]),h.both i hi]
        simp [hi]
      · rw [List.count_eq_zero_of_not_mem fun hmem => hi (h.known (publish i) hmem)]
        simp [hi]
  rw [List.countP_eq_length_filter,hperm.length_eq,List.length_map,List.length_range]

end UpdateStep

lemma Reading.form_of? {form : SourceForm} {directory : Path} {source : String} {r : Reading}
    (h : Reading.of? form directory source = some r) : r.parse.form = form := by
  obtain ⟨p,hp,hr⟩ := Option.bind_eq_some_iff.mp h
  obtain ⟨⟨root,final⟩,-,hp⟩ := Option.bind_eq_some_iff.mp hp
  cases hp
  cases hr
  rfl

/-- The source is read to its end, as a document of objects or a script. -/
structure Update.IsProgram (u : Update) : Prop where
  form : u.dialectOf.form ≠ .expression
  ends : (parse? u.dialectOf.form u.source).isSome

lemma Update.IsProgram.hasProgram {u : Update} (h : u.IsProgram) (s : Snapshot) :
    (u.document s).hasProgram := by
  obtain ⟨r,hr⟩ : ∃ r, (u.document s).reading = some r := by
    obtain ⟨p,hp⟩ := Option.isSome_iff_exists.mp h.ends
    refine ⟨_,Option.bind_eq_some_iff.mpr ⟨p,hp,rfl⟩⟩
  have hform : r.parse.form = u.dialectOf.form := Reading.form_of? hr
  have hprogram := h.form
  unfold Document.hasProgram Document.root?
  rw [hr]
  cases hdialect : u.dialectOf.form with
  | expression => exact absurd hdialect hprogram
  | qml => simp [hform,hdialect]
  | program => simp [hform,hdialect]

/-- A project that is being edited. -/
structure Editing where
  project : Project
  /-- The documents that updates have made, by their numbers. -/
  made : Nat → Option Document := fun _ => none

namespace Editing

open UpdateStep

def step (updates : List Update) (e : Editing) : UpdateStep → Editing
  | .make i =>
    { e with made := Function.update e.made i (updates[i]?.map (·.document e.project.snapshot)) }
  | .publish i => (e.made i).elim e fun d => { e with project := (e.project.publish d).2 }

def run (updates : List Update) (e : Editing) (steps : List UpdateStep) : Editing :=
  steps.foldl (step updates) e

variable {updates : List Update} {e : Editing} {here k : Path} {i : Nat} {steps : List UpdateStep}

/-- An update on its own takes its two steps one after the other. -/
lemma project_run_update {u : Update} (hu : updates[i]? = some u) :
    (e.run updates [.make i,.publish i]).project =
      (e.project.updateSource u.file u.source u.dialect).2 := by
  rw [Project.updateSource_eq]
  change (step updates (step updates e (.make i)) (.publish i)).project = _
  rw [step,step,hu]
  dsimp only
  rw [Function.update_self]
  rfl

/-- The updates are about one file, which has a document. -/
structure Ready (here k : Path) (e : Editing) : Prop where
  workingDirectory : e.project.snapshot.workingDirectory = here
  stored : ∃ d, e.project.documentAt? k = some d
  made : ∀ i d, e.made i = some d → d.file = k ∧ d.hasProgram

/-- Sources for one file, all of them programs. -/
structure Concern (updates : List Update) (here k : Path) : Prop where
  file : ∀ u ∈ updates, u.file.absolute here = k
  program : ∀ u ∈ updates, u.IsProgram

lemma made_step_make (updates : List Update) (e : Editing) (i : Nat) : (e.step updates (.make i)).made =
    Function.update e.made i (updates[i]?.map (·.document e.project.snapshot)) := rfl

lemma documentAt?_step_publish (updates : List Update) (hplace : k.absolute here = k) (h : e.Ready here k)
    {d : Document} (hd : e.made i = some d) : (e.step updates (.publish i)).project.documentAt? k = some d := by
  obtain ⟨hfile,hprogram⟩ := h.made i d hd
  have hpublish : (e.step updates (.publish i)).project = (e.project.publish d).2 := by rw [step,hd]; rfl
  have haccept : Snapshot.accepts e.project.config.indexing.allowInvalid d := by simp [Snapshot.accepts,hprogram]
  rw [hpublish,Project.documentAt?_publish,if_pos hfile.symm,if_pos haccept]
  rw [Snapshot.place,h.workingDirectory,hfile,hplace]

lemma Ready.step (h : e.Ready here k) (hplace : k.absolute here = k) (hc : Concern updates here k)
    (s : UpdateStep) : (e.step updates s).Ready here k := by
  cases s with
  | make i =>
    refine ⟨h.workingDirectory,h.stored,fun j d hd => ?_⟩
    rw [made_step_make] at hd
    by_cases hj : j = i
    · rw [hj,Function.update_self] at hd
      obtain ⟨u,hu,rfl⟩ := Option.map_eq_some_iff.mp hd
      have hmem := List.mem_of_getElem? hu
      refine ⟨?_,(hc.program u hmem).hasProgram _⟩
      rw [← hc.file u hmem,← h.workingDirectory]
      rfl
    · rw [Function.update_of_ne hj] at hd
      exact h.made j d hd
  | publish i =>
    cases hd : e.made i with
    | none => rwa [Editing.step,hd]
    | some d =>
      have hstored := documentAt?_step_publish updates hplace h hd
      refine ⟨?_,⟨d,hstored⟩,?_⟩ <;> rw [Editing.step,hd]
      · exact (Project.Settled.publish e.project d).workingDirectory.trans h.workingDirectory
      · exact h.made

lemma Ready.run (h : e.Ready here k) (hplace : k.absolute here = k) (hc : Concern updates here k)
    (steps : List UpdateStep) : (e.run updates steps).Ready here k := by
  induction steps generalizing e with
  | nil => exact h
  | cons s rest ih => exact ih (h.step hplace hc s)

lemma made_run (hsteps : ∀ s ∈ steps, s.number ≠ i) : (e.run updates steps).made i = e.made i := by
  induction steps generalizing e with
  | nil => rfl
  | cons s rest ih =>
    have hrest := ih (e := e.step updates s) fun s hs => hsteps s (List.mem_cons_of_mem _ hs)
    refine hrest.trans ?_
    have hs := hsteps s List.mem_cons_self
    cases s with
    | make j =>
      have hj : i ≠ j := fun h => hs h.symm
      rw [made_step_make,Function.update_of_ne hj]
    | publish j =>
      rw [step]
      cases e.made j <;> rfl

/-- The revision of the file after some steps. -/
def revisionAfter (updates : List Update) (e : Editing) (k : Path) (steps : List UpdateStep) : Nat :=
  (e.run updates steps).project.revisionAt k

lemma run_append (updates : List Update) (e : Editing) (a b : List UpdateStep) :
    e.run updates (a ++ b) = (e.run updates a).run updates b := List.foldl_append

lemma revisionAfter_make (updates : List Update) (e : Editing) (k : Path) (steps : List UpdateStep) (i : Nat) :
    e.revisionAfter updates k (steps ++ [.make i]) = e.revisionAfter updates k steps := by
  rw [revisionAfter,run_append]
  rfl

/-- An update counts on from the revision that was stored when it was made, whatever others have stored
since. -/
theorem revisionAfter_publish (hplace : k.absolute here = k) (h : e.Ready here k)
    (hc : Concern updates here k) {a b : List UpdateStep} (hi : i < updates.length)
    (hb : ∀ s ∈ b, s.number ≠ i) :
    e.revisionAfter updates k (a ++ .make i :: b ++ [.publish i]) =
      min (e.revisionAfter updates k a + 1) Document.maxRevision := by
  have hbefore := h.run hplace hc a
  have hready := hbefore.run hplace hc (.make i :: b)
  have hmade : ((e.run updates a).run updates (.make i :: b)).made i =
      some (updates[i].document (e.run updates a).project.snapshot) := by
    change (((e.run updates a).step updates (.make i)).run updates b).made i = _
    rw [made_run hb,made_step_make,Function.update_self,List.getElem?_eq_getElem hi]
    rfl
  rw [revisionAfter,run_append,run_append]
  change (Project.revisionAt (Editing.step updates _ (.publish i)).project k) = _
  rw [Project.revisionAt_of_document (documentAt?_step_publish updates hplace hready hmade),
    Project.revision_document,Snapshot.place,hbefore.workingDirectory,
    hc.file _ (List.getElem_mem hi)]
  rfl

/-- Revisions count on from the first one, but no further than updates have been stored. -/
theorem revisionAfter_bounds (hplace : k.absolute here = k) (h : e.Ready here k) (hc : Concern updates here k)
    (hmax : e.project.revisionAt k ≤ Document.maxRevision) (hbegun : Begun steps)
    (hknown : ∀ s ∈ steps, s.number < updates.length) :
    e.project.revisionAt k ≤ e.revisionAfter updates k steps ∧
      e.revisionAfter updates k steps ≤ e.project.revisionAt k + steps.countP isPublish := by
  induction hlength : steps.length using Nat.strong_induction_on generalizing steps with
  | h length ih =>
    obtain rfl | ⟨before,s,rfl⟩ := List.eq_nil_or_concat' steps
    · exact ⟨Nat.le_refl _,Nat.le_refl _⟩
    rw [List.length_append,List.length_singleton] at hlength
    have hs := hknown s (List.mem_append_right _ (List.mem_singleton_self s))
    rw [List.countP_append]
    cases s with
    | make i =>
      rw [revisionAfter_make]
      have hbefore := ih before.length (by omega) hbegun.left
        (fun s hs => hknown s (List.mem_append_left _ hs)) rfl
      exact ⟨hbefore.1,by omega⟩
    | publish i =>
      change i < updates.length at hs
      obtain ⟨a,b,rfl,-,hb⟩ := hbegun.split
      have ha := ih a.length (by rw [List.length_append] at hlength; omega) hbegun.left.left
        (fun s hs => hknown s (List.mem_append_left _ (List.mem_append_left _ hs))) rfl
      rw [revisionAfter_publish hplace h hc hs hb,List.countP_append]
      have hone : [UpdateStep.publish i].countP isPublish = 1 := rfl
      omega

/-- If every update that is stored has been counted, the updates follow one after the other. -/
theorem serial_of_revisionAfter (hplace : k.absolute here = k) (h : e.Ready here k)
    (hc : Concern updates here k) (hmax : e.project.revisionAt k ≤ Document.maxRevision) (hwhole : Whole steps)
    (hknown : ∀ s ∈ steps, s.number < updates.length)
    (hall : e.revisionAfter updates k steps = e.project.revisionAt k + steps.countP isPublish) :
    Serial steps := by
  induction hlength : steps.length using Nat.strong_induction_on generalizing steps with
  | h length ih =>
    obtain rfl | ⟨before,s,rfl⟩ := List.eq_nil_or_concat' steps
    · exact ⟨[],rfl⟩
    have hs := hknown s (List.mem_append_right _ (List.mem_singleton_self s))
    cases s with
    | make i =>
      obtain hi | hi := hwhole i
      · rw [List.filter_append] at hi
        simp [number] at hi
      · rw [List.filter_append,List.filter_cons_of_pos (by simp [number])] at hi
        have hlast := congrArg List.getLast? hi
        simp at hlast
    | publish i =>
      change i < updates.length at hs
      obtain ⟨a,b,rfl,ha,hb⟩ := hwhole.begun.split
      have hknown_a (s : UpdateStep) (hs : s ∈ a) : s.number < updates.length :=
        hknown s (List.mem_append_left _ (List.mem_append_left _ hs))
      have hbounds := revisionAfter_bounds hplace h hc hmax hwhole.begun.left.left hknown_a
      rw [revisionAfter_publish hplace h hc hs hb,List.countP_append,List.countP_append] at hall
      have hone : [UpdateStep.publish i].countP isPublish = 1 := rfl
      have hsame : (UpdateStep.make i :: b).countP isPublish = b.countP isPublish := rfl
      -- An update stored between the two steps would be one that is not counted.
      have hnone : b.countP isPublish = 0 := by omega
      have hb : b = [] := by
        refine List.eq_nil_iff_forall_not_mem.mpr fun s hs => ?_
        have hpublish := List.countP_eq_zero.mp hnone _ (hwhole.publish_mem hs (hb s hs))
        exact hpublish rfl
      subst hb
      refine (ih a.length ?_ (hwhole.left ha) hknown_a (by omega) rfl).concat i
      rw [← hlength,List.length_append,List.length_append]
      exact Nat.lt_add_right _ (Nat.lt_succ_self _)

lemma countP_flatMap (order : List Nat) :
    (order.flatMap fun i => [make i,publish i]).countP isPublish = order.length := by
  induction order with
  | nil => rfl
  | cons i rest ih =>
    rw [List.flatMap_cons,List.countP_append,ih,List.length_cons,Nat.add_comm]
    rfl

/-- Updates that follow one after the other are all counted. -/
theorem revisionAfter_flatMap (hplace : k.absolute here = k) (h : e.Ready here k) (hc : Concern updates here k)
    (hmax : e.project.revisionAt k ≤ Document.maxRevision) (order : List Nat)
    (horder : ∀ i ∈ order, i < updates.length) :
    e.revisionAfter updates k (order.flatMap fun i => [make i,publish i]) =
      min (e.project.revisionAt k + order.length) Document.maxRevision := by
  induction order using List.reverseRecOn with
  | nil => exact (Nat.min_eq_left hmax).symm
  | append_singleton order i ih =>
    have hi := horder i (List.mem_append_right _ (List.mem_singleton_self i))
    have hbefore := ih fun j hj => horder j (List.mem_append_left _ hj)
    have hsteps : ((order ++ [i]).flatMap fun i => [make i,publish i]) =
        (order.flatMap fun i => [make i,publish i]) ++ [make i] ++ [publish i] := by simp
    rw [hsteps,revisionAfter_publish hplace h hc hi (List.forall_mem_nil _),hbefore,List.length_append,
      List.length_singleton]
    omega

lemma revisionAfter_of_serial (hplace : k.absolute here = k) (h : e.Ready here k) (hc : Concern updates here k)
    (hknown : ∀ s ∈ steps, s.number < updates.length) (hserial : Serial steps)
    (hmax : e.project.revisionAt k + steps.countP isPublish ≤ Document.maxRevision) :
    e.revisionAfter updates k steps = e.project.revisionAt k + steps.countP isPublish := by
  obtain ⟨order,rfl⟩ := hserial
  rw [countP_flatMap] at hmax ⊢
  rw [revisionAfter_flatMap hplace h hc (by omega) order fun i hi => ?_,Nat.min_eq_left hmax]
  exact hknown (make i) (List.mem_flatMap.mpr ⟨i,hi,List.mem_cons_self⟩)

/-- However the updates of a file overlap, its document is there in the end, and its revision has gone up by
their number at most. It has gone up by all of them exactly if each one was stored before the next one was
made. -/
theorem revision_interleaved_iff {p : Project} {d : Document} (hplace : k.absolute here = k)
    (hhere : p.snapshot.workingDirectory = here) (hd : p.documentAt? k = some d) (hc : Concern updates here k)
    (hmax : d.revision + updates.length ≤ Document.maxRevision) (hsteps : Interleaved updates.length steps) :
    ∃ last, (run updates { project := p } steps).project.documentAt? k = some last ∧
      d.revision ≤ last.revision ∧ last.revision ≤ d.revision + updates.length ∧
      (last.revision = d.revision + updates.length ↔ Serial steps) := by
  have hready : Ready here k { project := p } := ⟨hhere,⟨d,hd⟩,fun _ _ h => by cases h⟩
  obtain ⟨last,hlast⟩ := (hready.run hplace hc steps).stored
  have hstart : p.revisionAt k = d.revision := Project.revisionAt_of_document hd
  have hend : revisionAfter updates { project := p } k steps = last.revision :=
    Project.revisionAt_of_document hlast
  have hcount := hsteps.countP
  have hbounds := revisionAfter_bounds hplace hready hc (by change p.revisionAt k ≤ _; omega)
    hsteps.whole.begun hsteps.known
  have hall := serial_of_revisionAfter hplace hready hc (by change p.revisionAt k ≤ _; omega) hsteps.whole
    hsteps.known
  have hserial (h : Serial steps) := revisionAfter_of_serial hplace hready hc hsteps.known h
  rw [hcount,hend] at hbounds hall hserial
  dsimp only at hbounds hall hserial
  rw [hstart] at hbounds hall hserial
  exact ⟨last,hlast,hbounds.1,hbounds.2,hall,fun h => hserial h hmax⟩

/-- An editor shows a file. -/
def opened : Project :=
  ((Project.new {} ⟨"/w"⟩ {}).updateSource ⟨"/w/A.qml"⟩ "A{}" none).2

lemma documentAt?_opened : ∃ d, opened.documentAt? ⟨"/w/A.qml"⟩ = some d ∧ d.revision = 1 :=
  Option.map_eq_some_iff.mp (by decide +kernel)

lemma workingDirectory_opened : opened.snapshot.workingDirectory = ⟨"/"⟩ :=
  (Project.Settled.publish _ _).workingDirectory

/-- The file is changed twice. -/
def changes : List Update :=
  ["A{x:1}","A{x:2}"].map fun source => { file := ⟨"/w/A.qml"⟩, source }

lemma concern_changes : Concern changes ⟨"/"⟩ ⟨"/w/A.qml"⟩ := by
  refine ⟨by decide,fun u hu => ?_⟩
  obtain ⟨source,hsource,rfl⟩ := List.mem_map.mp hu
  obtain rfl | hsource := List.mem_cons.mp hsource
  · exact ⟨by decide +kernel,by decide +kernel⟩
  · obtain rfl := List.mem_singleton.mp hsource
    exact ⟨by decide +kernel,by decide +kernel⟩

/-- The second change is made once the first one has been stored. -/
theorem revision_of_changes_in_turn : ∃ d last : Document, opened.documentAt? ⟨"/w/A.qml"⟩ = some d ∧
    (run changes { project := opened } [make 0,publish 0,make 1,publish 1]).project.documentAt?
      ⟨"/w/A.qml"⟩ = some last ∧ last.revision = d.revision + 2 := by
  obtain ⟨d,hd,hone⟩ := documentAt?_opened
  have hmax : d.revision + changes.length ≤ Document.maxRevision := by rw [hone]; decide
  have hsteps : Interleaved changes.length [make 0,publish 0,make 1,publish 1] := ⟨by decide,by decide⟩
  obtain ⟨last,hlast,-,-,hiff⟩ :=
    revision_interleaved_iff (by decide) workingDirectory_opened hd concern_changes hmax hsteps
  exact ⟨d,last,hd,hlast,hiff.mpr ⟨[0,1],rfl⟩⟩

/-- Both changes are made before one of them has been stored. -/
theorem revision_lost_when_overlapping : ∃ d last : Document,
    opened.documentAt? ⟨"/w/A.qml"⟩ = some d ∧ d.revision + changes.length ≤ Document.maxRevision ∧
    Concern changes opened.snapshot.workingDirectory ⟨"/w/A.qml"⟩ ∧
    Interleaved changes.length [make 0,make 1,publish 0,publish 1] ∧
    (run changes { project := opened } [make 0,make 1,publish 0,publish 1]).project.documentAt?
      ⟨"/w/A.qml"⟩ = some last ∧ last.revision ≠ d.revision + changes.length := by
  obtain ⟨d,hd,hone⟩ := documentAt?_opened
  have hend : ((run changes { project := opened } [make 0,make 1,publish 0,publish 1]).project.documentAt?
      ⟨"/w/A.qml"⟩).map Document.revision = some 2 := by
    decide +kernel
  obtain ⟨last,hlast,htwo⟩ := Option.map_eq_some_iff.mp hend
  have hc : Concern changes opened.snapshot.workingDirectory ⟨"/w/A.qml"⟩ :=
    workingDirectory_opened ▸ concern_changes
  refine ⟨d,last,hd,?_,hc,⟨by decide,by decide⟩,hlast,?_⟩ <;> rw [hone]
  · decide
  · rw [htwo]
    decide

end Editing
end QmlCodeModel
