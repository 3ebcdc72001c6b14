import Mathlib.Data.List.Nodup
import Mathlib.Data.String.Basic
import QmlCodeModel.Proofs.FiniteMap
import QmlCodeModel.Proofs.Path
import QmlCodeModel.Snapshot

/-! Documents by file, documents by directory and the import graph stay in step, whatever documents come
and go. -/
namespace QmlCodeModel

lemma mem_sortTexts {text : String} {texts : List String} : text ∈ sortTexts texts ↔ text ∈ texts :=
  List.mem_mergeSort

/-- Texts without repetition are sorted strictly. -/
lemma pairwise_sortTexts {texts : List String} (h : texts.Nodup) :
    (sortTexts texts).Pairwise (· < ·) := by
  have hle : (sortTexts texts).Pairwise (· ≤ ·) := by
    have hsorted : (sortTexts texts).Pairwise fun a b => decide (a ≤ b) = true := by
      refine List.pairwise_mergeSort (fun a b c hab hbc => ?_) (fun a b => ?_) texts
      · exact decide_eq_true (le_trans (of_decide_eq_true hab) (of_decide_eq_true hbc))
      · simpa using le_total a b
    exact hsorted.imp of_decide_eq_true
  have hne : (sortTexts texts).Nodup := (List.mergeSort_perm texts _).nodup_iff.mpr h
  exact hle.imp₂ (fun _ _ => lt_of_le_of_ne) hne

namespace ImportGraph

/-- Enters targets one after the other. -/
def withTargets (targets more : List String) : List String :=
  more.foldl (fun targets t => targets.insert t) targets

lemma mem_withTargets {targets more : List String} {t : String} :
    t ∈ withTargets targets more ↔ t ∈ targets ∨ t ∈ more := by
  induction more generalizing targets with
  | nil => simp [withTargets]
  | cons u rest ih =>
    change t ∈ withTargets (targets.insert u) rest ↔ _
    rw [ih,List.mem_insert_iff,List.mem_cons]
    tauto

lemma nodup_withTargets {targets : List String} (h : targets.Nodup) (more : List String) :
    (withTargets targets more).Nodup := by
  induction more generalizing targets with
  | nil => exact h
  | cons u rest ih => exact ih (List.Nodup.insert h)

variable (g : ImportGraph) (d : Document)

lemma coreImport?_foldl (id : String) (targets : List String) :
    (targets.foldl (fun g t => g.addDependency d.importId t) g).coreImport? id = g.coreImport? id := by
  induction targets generalizing g with
  | nil => rfl
  | cons t rest ih => exact ih (g.addDependency d.importId t)

lemma targets_addDependency (importer id target : String) :
    (g.addDependency importer target).targets id =
      if id = importer then (g.targets id).insert target else g.targets id := by
  unfold addDependency targets
  rw [FiniteMap.get?_insert]
  split
  · rename_i h
    rw [h]
    rfl
  · rfl

lemma targets_foldl (id : String) (more : List String) :
    (more.foldl (fun g t => g.addDependency d.importId t) g).targets id =
      if id = d.importId then withTargets (g.targets id) more else g.targets id := by
  induction more generalizing g with
  | nil => simp [withTargets]
  | cons t rest ih =>
    rw [List.foldl_cons,ih,targets_addDependency]
    split <;> rfl

lemma mem_dependentsOf {id t : String} : id ∈ g.dependentsOf t ↔ t ∈ g.targets id := by
  rw [dependentsOf,mem_sortTexts,List.mem_filter,decide_eq_true_eq,and_iff_right_iff_imp,
    FiniteMap.mem_keys_iff]
  intro ht
  unfold targets at ht
  cases hkey : g.dependencies.get? id with
  | none => simp [hkey] at ht
  | some targets => rfl

end ImportGraph

/-- What a document imports, each target once. -/
def Document.targets (d : Document) : List String :=
  ImportGraph.withTargets [] (d.imports.map Import.target)

lemma Document.mem_targets {d : Document} {t : String} :
    t ∈ d.targets ↔ ∃ i ∈ d.imports, i.target = t := by
  simp [Document.targets,ImportGraph.mem_withTargets]

/-- A document is named by the text of its file. -/
lemma Document.file_iff (d : Document) (id : String) : Path.mk id = d.file ↔ id = d.importId := by
  cases h : d.file
  simp [Document.importId,h]

namespace Snapshot

variable {s : Snapshot} {d e : Document} {here : Path}

/-- What a directory holds. -/
def siblings (m : FiniteMap Path (List Document)) (directory : Path) : List Document :=
  (m.get? directory).getD []

/-- A document is stored. -/
def Stores (s : Snapshot) (d : Document) : Prop := ∃ file, s.documents.get? file = some d

/-- The parts of a snapshot agree. -/
structure InStep (s : Snapshot) : Prop where
  filed : ∀ file d, s.documents.get? file = some d → d.file = file ∧ s.place file = file
  distinct : ∀ directory, (siblings s.byDirectory directory).Pairwise (·.file ≠ ·.file)
  grouped : ∀ directory d, d ∈ siblings s.byDirectory directory ↔
    s.documents.get? d.file = some d ∧ d.directory = directory
  kept : ∀ directory, s.byDirectory.get? directory ≠ some []
  entered : ∀ id, s.imports.coreImport? id = (s.documents.get? ⟨id⟩).map Document.coreImport
  linked : ∀ id, s.imports.targets id = ((s.documents.get? ⟨id⟩).map Document.targets).getD []

lemma siblings_leaveDirectory (m : FiniteMap Path (List Document)) (d : Document) (directory : Path) :
    siblings (leaveDirectory m d) directory =
      if directory = d.directory then (siblings m directory).filter (·.file ≠ d.file)
      else siblings m directory := by
  unfold leaveDirectory
  split
  · rename_i h
    by_cases heq : directory = d.directory <;> simp [siblings,heq,h]
  · rename_i group hgroup
    split
    · rename_i hnone
      by_cases heq : directory = d.directory <;>
        simp only [siblings,FiniteMap.get?_erase,heq,hgroup,hnone,if_true,if_false,Option.getD_some,
          Option.getD_none]
    · rename_i hsome
      by_cases heq : directory = d.directory <;>
        simp only [siblings,FiniteMap.get?_insert,heq,hgroup,if_true,if_false,Option.getD_some]

lemma kept_leaveDirectory {m : FiniteMap Path (List Document)}
    (h : ∀ directory, m.get? directory ≠ some []) (d : Document) (directory : Path) :
    (leaveDirectory m d).get? directory ≠ some [] := by
  unfold leaveDirectory
  split
  · exact h directory
  split
  · rw [FiniteMap.get?_erase]
    split
    · simp
    · exact h directory
  · rename_i hne
    rw [FiniteMap.get?_insert]
    split
    · exact fun heq => hne (Option.some.inj heq)
    · exact h directory

lemma siblings_enterDirectory (m : FiniteMap Path (List Document)) (d : Document) (directory : Path) :
    siblings (enterDirectory m d) directory =
      if directory = d.directory then siblings m directory ++ [d] else siblings m directory := by
  unfold enterDirectory siblings
  rw [FiniteMap.get?_insert]
  by_cases heq : directory = d.directory <;> simp [heq]

lemma kept_enterDirectory {m : FiniteMap Path (List Document)}
    (h : ∀ directory, m.get? directory ≠ some []) (d : Document) (directory : Path) :
    (enterDirectory m d).get? directory ≠ some [] := by
  unfold enterDirectory
  rw [FiniteMap.get?_insert]
  split
  · simp
  · exact h directory

lemma coreImport?_enterImports (g : ImportGraph) (d : Document) (id : String) :
    (enterImports g d).coreImport? id =
      if id = d.importId then some d.coreImport else g.coreImport? id := by
  unfold enterImports
  rw [← List.foldl_map (g := fun (g : ImportGraph) t => g.addDependency d.importId t),
    ImportGraph.coreImport?_foldl]
  exact FiniteMap.get?_insert _ _ _ _

lemma targets_enterImports (g : ImportGraph) (d : Document) (id : String) :
    (enterImports g d).targets id =
      if id = d.importId then ImportGraph.withTargets (g.targets id) (d.imports.map Import.target)
      else g.targets id := by
  unfold enterImports
  rw [← List.foldl_map (g := fun (g : ImportGraph) t => g.addDependency d.importId t),
    ImportGraph.targets_foldl]
  rfl

/-- Taking a document out keeps the parts in step. -/
lemma InStep.remove (h : s.InStep) (file : Path) : (s.remove file).InStep := by
  unfold Snapshot.remove
  dsimp only
  split
  · exact h
  rename_i d hd
  obtain ⟨hfile,-⟩ := h.filed _ d hd
  have hdocuments (f : Path) : (s.documents.erase (s.place file)).get? f =
      if f = d.file then none else s.documents.get? f := by rw [FiniteMap.get?_erase,hfile]
  refine ⟨fun f e he => ?_,fun directory => ?_,fun directory e => ?_,kept_leaveDirectory h.kept d,
    fun id => ?_,fun id => ?_⟩
  · simp only [hdocuments] at he
    split at he
    · cases he
    · exact h.filed f e he
  · simp only [siblings_leaveDirectory]
    split
    · exact (h.distinct directory).filter _
    · exact h.distinct directory
  · simp only [siblings_leaveDirectory,hdocuments]
    split
    · rw [List.mem_filter,h.grouped]
      by_cases he : e.file = d.file <;> simp [he]
    · rename_i hdirectory
      rw [h.grouped]
      by_cases he : e.file = d.file
      · rw [he,if_pos rfl,hfile,hd]
        refine ⟨?_,by simp⟩
        rintro ⟨⟨⟩,rfl⟩
        exact absurd rfl hdirectory
      · rw [if_neg he]
  · simp only [ImportGraph.coreImport?,ImportGraph.removeCoreImport,FiniteMap.get?_erase,hdocuments,Document.file_iff]
    split
    · rfl
    · exact h.entered id
  · simp only [ImportGraph.targets,ImportGraph.removeCoreImport,FiniteMap.get?_erase,hdocuments,Document.file_iff]
    split
    · rfl
    · exact h.linked id

/-- Nothing is stored any more where a document has been taken out. -/
lemma get?_remove (s : Snapshot) (file : Path) :
    (s.remove file).documents.get? (s.place file) = none := by
  unfold Snapshot.remove
  dsimp only
  split
  · assumption
  · rw [FiniteMap.get?_erase,if_pos rfl]

lemma workingDirectory_remove (s : Snapshot) (file : Path) :
    (s.remove file).workingDirectory = s.workingDirectory := by
  unfold Snapshot.remove
  dsimp only
  split <;> rfl

/-- A document that is not stored yet is entered once into its directory. -/
lemma InStep.distinct_enter (h : s.InStep) (hnone : s.documents.get? d.file = none) (directory : Path) :
    (siblings (enterDirectory s.byDirectory d) directory).Pairwise (·.file ≠ ·.file) := by
  rw [siblings_enterDirectory]
  split
  · refine List.pairwise_append.mpr ⟨h.distinct directory,List.pairwise_singleton _ _,?_⟩
    intro e he e' he' heq
    rw [List.mem_singleton.mp he'] at heq
    have hstored := ((h.grouped directory e).mp he).1
    rw [heq,hnone] at hstored
    cases hstored
  · exact h.distinct directory

lemma InStep.grouped_enter (h : s.InStep) (hnone : s.documents.get? d.file = none) (directory : Path)
    (e : Document) : e ∈ siblings (enterDirectory s.byDirectory d) directory ↔
      (s.documents.insert d.file d).get? e.file = some e ∧ e.directory = directory := by
  rw [siblings_enterDirectory,FiniteMap.get?_insert]
  split
  · rename_i hdirectory
    rw [List.mem_append,List.mem_singleton,h.grouped]
    by_cases he : e.file = d.file
    · rw [if_pos he,he,hnone]
      constructor
      · rintro (⟨h,-⟩ | rfl)
        · cases h
        · exact ⟨rfl,hdirectory.symm⟩
      · rintro ⟨h,-⟩
        exact .inr (Option.some.inj h).symm
    · have hne : e ≠ d := fun heq => he (by rw [heq])
      simp [he,hne]
  · rename_i hdirectory
    rw [h.grouped]
    by_cases he : e.file = d.file
    · rw [if_pos he,he,hnone]
      refine ⟨fun h => absurd h.1 (by simp),?_⟩
      rintro ⟨⟨⟩,rfl⟩
      exact absurd rfl hdirectory
    · rw [if_neg he]

/-- Storing a document under its own file keeps the parts in step. -/
lemma InStep.store (h : s.InStep) (hplace : s.place d.file = d.file) : (s.store d).InStep := by
  have hs := h.remove d.file
  have hnone := s.get?_remove d.file
  have hhere := s.workingDirectory_remove d.file
  unfold Snapshot.store
  rw [hplace] at hnone
  set r := s.remove d.file
  refine ⟨fun f e he => ?_,hs.distinct_enter hnone,hs.grouped_enter hnone,kept_enterDirectory hs.kept d,
    fun id => ?_,fun id => ?_⟩
  · rw [FiniteMap.get?_insert] at he
    split at he
    · rename_i hf
      cases he
      refine ⟨hf.symm,?_⟩
      rw [hf]
      unfold place at hplace ⊢
      rw [hhere]
      exact hplace
    · exact hs.filed f e he
  · simp only [coreImport?_enterImports,FiniteMap.get?_insert,Document.file_iff]
    split
    · rfl
    · exact hs.entered id
  · have hlinked := hs.linked id
    simp only [targets_enterImports,FiniteMap.get?_insert,Document.file_iff]
    split
    · rename_i heq
      rw [(d.file_iff id).mpr heq,hnone] at hlinked
      rw [hlinked]
      rfl
    · exact hlinked

/-- One change to what is stored. Every document has a file as it is seen from the working directory. -/
inductive Step (here : Path)
  | insert (d : Document) (placed : ∃ file dialect, d.file = (Document.new here file dialect).file)
    (allowInvalid : Bool)
  | remove (file : Path)

def take (s : Snapshot) : Step here → Snapshot
  | .insert d _ allowInvalid => (s.insert d allowInvalid).2
  | .remove file => s.remove file

/-- What is stored after some changes, when nothing was stored before. -/
def after (here : Path) (steps : List (Step here)) : Snapshot :=
  steps.foldl take (.empty here)

lemma take_insert (s : Snapshot) (d : Document) (placed) (allowInvalid : Bool) :
    s.take (.insert d placed allowInvalid : Step here) =
      if allowInvalid || d.hasProgram then s.store d else s := by
  simp only [take,insert]
  split <;> rfl

lemma workingDirectory_take (s : Snapshot) (step : Step here) :
    (s.take step).workingDirectory = s.workingDirectory := by
  cases step with
  | insert d placed allowInvalid =>
    rw [take_insert]
    split
    · exact s.workingDirectory_remove d.file
    · rfl
  | remove file => exact s.workingDirectory_remove file

lemma InStep.take (h : s.InStep) (hhere : here.IsWorkingDirectory) (hs : s.workingDirectory = here)
    (step : Step here) : (s.take step).InStep := by
  cases step with
  | insert d placed allowInvalid =>
    rw [take_insert]
    split
    · refine h.store ?_
      obtain ⟨file,dialect,hfile⟩ := placed
      rw [place,hs,hfile]
      exact Path.absolute_absolute hhere
    · exact h
  | remove file => exact h.remove file

lemma inStep_empty (here : Path) : (empty here).InStep := by
  refine ⟨?_,?_,?_,?_,?_,?_⟩ <;>
    simp [empty,siblings,FiniteMap.get?,ImportGraph.coreImport?,ImportGraph.targets]

theorem inStep_after (hhere : here.IsWorkingDirectory) (steps : List (Step here)) :
    (after here steps).InStep ∧ (after here steps).workingDirectory = here := by
  unfold after
  have hrun (s : Snapshot) (h : s.InStep) (hs : s.workingDirectory = here) :
      (steps.foldl Snapshot.take s).InStep ∧ (steps.foldl Snapshot.take s).workingDirectory = here := by
    induction steps generalizing s with
    | nil => exact ⟨h,hs⟩
    | cons step rest ih => exact ih _ (h.take hhere hs step) ((s.workingDirectory_take step).trans hs)
  exact hrun _ (inStep_empty here) rfl

lemma InStep.stores_iff (h : s.InStep) : s.Stores d ↔ s.documents.get? d.file = some d := by
  refine ⟨?_,fun hd => ⟨_,hd⟩⟩
  rintro ⟨file,hd⟩
  rw [(h.filed _ d hd).1,hd]

/-- A document is stored under the file that its name in the import graph says. -/
lemma InStep.get?_iff (h : s.InStep) {id : String} :
    s.documents.get? ⟨id⟩ = some d ↔ s.Stores d ∧ d.importId = id := by
  constructor
  · intro hd
    exact ⟨⟨_,hd⟩,((d.file_iff id).mp (h.filed _ d hd).1.symm).symm⟩
  · rintro ⟨hd,hid⟩
    rw [(d.file_iff id).mpr hid.symm]
    exact h.stores_iff.mp hd

lemma InStep.coreImport?_iff (h : s.InStep) {id : String} {c : CoreImport} :
    s.imports.coreImport? id = some c ↔ ∃ d, s.Stores d ∧ d.importId = id ∧ d.coreImport = c := by
  simp only [h.entered,Option.map_eq_some_iff,h.get?_iff,and_assoc]

lemma InStep.mem_targets (h : s.InStep) {id t : String} : t ∈ s.imports.targets id ↔
    ∃ d, s.Stores d ∧ d.importId = id ∧ ∃ i ∈ d.imports, i.target = t := by
  rw [h.linked]
  constructor
  · intro ht
    cases hd : s.documents.get? ⟨id⟩ with
    | none => simp [hd] at ht
    | some d =>
      rw [hd] at ht
      obtain ⟨hstored,hid⟩ := h.get?_iff.mp hd
      exact ⟨d,hstored,hid,Document.mem_targets.mp ht⟩
  · rintro ⟨d,hstored,hid,ht⟩
    rw [h.get?_iff.mpr ⟨hstored,hid⟩]
    exact Document.mem_targets.mpr ht

lemma InStep.nodup_targets (h : s.InStep) (id : String) : (s.imports.targets id).Nodup := by
  rw [h.linked]
  cases s.documents.get? ⟨id⟩ with
  | none => exact .nil
  | some d => exact ImportGraph.nodup_withTargets .nil _

/-- Whatever tells a stored document from all others, its directory keeps the rest. -/
theorem leaveDirectory_of_identity (h : s.InStep) (hd : s.Stores d) (same : Document → Bool)
    (hself : same d) (hsame : ∀ e, same e → e = d) :
    siblings (leaveDirectory s.byDirectory d) d.directory =
      (siblings s.byDirectory d.directory).filter (!same ·) := by
  rw [siblings_leaveDirectory,if_pos rfl]
  refine List.filter_congr fun e he => ?_
  obtain ⟨file,hd⟩ := hd
  have hstored := ((h.grouped _ e).mp he).1
  by_cases heq : e.file = d.file
  · rw [heq,(h.filed _ d hd).1,hd] at hstored
    obtain rfl := Option.some.inj hstored
    simp [hself]
  · have hne : same e = false := by
      refine Bool.eq_false_iff.mpr fun h => heq ?_
      rw [hsame e h]
    simp [heq,hne]

/-- After any changes, documents are stored under their own files; a directory holds those that lie in
it, each once, and no directory is empty; the graph holds what the stored documents offer and import,
sorted and each once. A document that is not taken changes nothing. -/
theorem parts_agree_after (hhere : here.IsWorkingDirectory) (steps : List (Step here)) :
    (∀ file d, (after here steps).documents.get? file = some d → d.file = file) ∧
    (∀ directory,
      ((after here steps).documentsIn directory).Pairwise (·.file ≠ ·.file) ∧
      (∀ d, d ∈ (after here steps).documentsIn directory ↔
        (after here steps).Stores d ∧ d.directory = directory.absolute here) ∧
      (after here steps).byDirectory.get? directory ≠ some []) ∧
    (∀ id c, (after here steps).imports.coreImport? id = some c ↔
      ∃ d, (after here steps).Stores d ∧ d.importId = id ∧ d.coreImport = c) ∧
    (∀ id, ((after here steps).imports.dependenciesOf id).Pairwise (· < ·) ∧
      ∀ t, t ∈ (after here steps).imports.dependenciesOf id ↔
        ∃ d, (after here steps).Stores d ∧ d.importId = id ∧ ∃ i ∈ d.imports, i.target = t) ∧
    (∀ t, ((after here steps).imports.dependentsOf t).Pairwise (· < ·) ∧
      ∀ id, id ∈ (after here steps).imports.dependentsOf t ↔
        ∃ d, (after here steps).Stores d ∧ d.importId = id ∧ ∃ i ∈ d.imports, i.target = t) ∧
    ∀ d allowInvalid, ((after here steps).insert d allowInvalid).1 = false →
      ((after here steps).insert d allowInvalid).2 = after here steps := by
  obtain ⟨h,hplace⟩ := inStep_after hhere steps
  generalize after here steps = s at h hplace
  refine ⟨fun file d hd => (h.filed file d hd).1,fun directory => ⟨?_,fun d => ?_,h.kept directory⟩,
    fun id c => h.coreImport?_iff,fun id => ⟨?_,fun t => ?_⟩,fun t => ⟨?_,fun id => ?_⟩,
    fun d allowInvalid => ?_⟩
  · exact h.distinct _
  · rw [h.stores_iff,← hplace]
    exact h.grouped _ d
  · exact pairwise_sortTexts (h.nodup_targets id)
  · rw [ImportGraph.dependenciesOf,mem_sortTexts,h.mem_targets]
  · exact pairwise_sortTexts (s.imports.dependencies.distinct.filter _)
  · rw [ImportGraph.mem_dependentsOf,h.mem_targets]
  · unfold insert
    split <;> simp

/-- Storing a document again. Its directory is found under another spelling. -/
theorem parts_agree_after_storing_again : ∃ d : Document, d.file = ⟨"/w/A.qml"⟩ ∧
    ∃ steps : List (Step ⟨"/w"⟩), steps.length = 2 ∧
      (after ⟨"/w"⟩ steps).documents.get? ⟨"/w/A.qml"⟩ = some d ∧
      ((after ⟨"/w"⟩ steps).documentsIn ⟨"../w"⟩).Pairwise (·.file ≠ ·.file) ∧
      d ∈ (after ⟨"/w"⟩ steps).documentsIn ⟨"../w/."⟩ := by
  have hplace : Path.absolute ⟨"./A.qml"⟩ ⟨"/w"⟩ = ⟨"/w/A.qml"⟩ := by decide +kernel
  have hdetour : ⟨"/w"⟩ = Path.absolute ⟨"../w/."⟩ ⟨"/w"⟩ := by decide +kernel
  obtain ⟨fingerprint⟩ : Nonempty Fingerprint := ⟨.ofText ""⟩
  let d : Document :=
    { file := ⟨"/w/A.qml"⟩, directory := ⟨"/w"⟩, componentName := "A", dialect := .qml, fingerprint }
  let again : Step ⟨"/w"⟩ := .insert d ⟨⟨"./A.qml"⟩,.qml,hplace.symm⟩ true
  obtain ⟨-,hdirectory,-⟩ := parts_agree_after (.inl (by decide)) [again,again]
  have hstored : (after ⟨"/w"⟩ [again,again]).documents.get? ⟨"/w/A.qml"⟩ = some d := by
    simp only [after,List.foldl_cons,List.foldl_nil,again,take_insert,Bool.true_or,if_true,store,
      FiniteMap.get?_insert,d]
  refine ⟨d,rfl,[again,again],rfl,hstored,(hdirectory _).1,?_⟩
  exact ((hdirectory _).2.1 d).mpr ⟨⟨_,hstored⟩,hdetour⟩

end Snapshot
end QmlCodeModel
