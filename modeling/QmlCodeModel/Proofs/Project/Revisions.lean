import QmlCodeModel.Proofs.Project.Documents

/-! The revisions of the documents of a project. An editor counts on from the revision that is stored, and a
file that is read from disk starts again from zero. So a revision falls exactly where the file of an edited
document is read again. -/
namespace QmlCodeModel

/-- The source that an editor shows for a file. -/
structure Update where
  file : Path
  source : String
  dialect : Option Dialect := none

namespace Update

/-- What the source is taken for. -/
def dialectOf (u : Update) : Dialect := u.dialect.getD (.ofPath u.file)

/-- The document that an update makes of the source, one revision after the one that is stored. -/
def document (u : Update) (s : Snapshot) : Document :=
  (s.documentFromSource u.source u.file u.dialectOf).bumpRevision.read

end Update

namespace Project

variable {p : Project} {u : Update} {d : Document} {file k here : Path}

/-- The revision of what is stored for a file, or zero. -/
def revisionAt (p : Project) (k : Path) : Nat := ((p.documentAt? k).map Document.revision).getD 0

lemma revisionAt_of_document (h : p.documentAt? k = some d) : p.revisionAt k = d.revision := by
  rw [revisionAt,h]
  rfl

lemma updateSource_eq (p : Project) (u : Update) :
    p.updateSource u.file u.source u.dialect = p.publish (u.document p.snapshot) := rfl

lemma revision_document (p : Project) (u : Update) : (u.document p.snapshot).revision =
    min (p.revisionAt (p.snapshot.place u.file) + 1) Document.maxRevision := rfl

/-- What is loaded is made of the source on disk, and nothing has been edited in it. -/
lemma made_of_load {s : FileSystem} (h : p.load s file = .ok d) :
    d.file = file.absolute s.workingDirectory ∧ d.revision = 0 := by
  by_cases hfile : ∃ bytes modified, s.entry file = .ok (.file bytes modified)
  · obtain ⟨bytes,modified,he⟩ := hfile
    have hd := (load_of_file he).mp h
    unfold documentOf? at hd
    split at hd
    · cases hd
    split at hd
    · cases hd
    · obtain ⟨source,-,rfl⟩ := Option.map_eq_some_iff.mp hd
      exact ⟨rfl,rfl⟩
  · refine absurd h (load_of_not_file fun bytes modified he => ?_)
    exact hfile ⟨bytes,modified,he⟩

/-- The documents of those files that can be read. -/
def loadAll (p : Project) (s : FileSystem) (files : List Path) : List Document :=
  files.filterMap fun file => (p.load s file).toOption

lemma mem_loadAll {s : FileSystem} {files : List Path} :
    d ∈ p.loadAll s files ↔ ∃ file ∈ files, p.load s file = .ok d := by
  unfold loadAll
  rw [List.mem_filterMap]
  refine exists_congr fun file => and_congr_right fun _ => ?_
  cases p.load s file <;> simp [Except.toOption]

/-- What is asked of a project, with the files that are there at that time. -/
inductive Operation (here : Path)
  | updateSource (u : Update)
  | updateFile (s : FileSystem) (seen : s.workingDirectory = here) (file : Path)
  | indexFiles (s : FileSystem) (seen : s.workingDirectory = here) (files : List Path)
  | index (s : FileSystem) (seen : s.workingDirectory = here)
  | removeFile (file : Path)
  | removeDirectory (directory : Path)
  | refreshLibrary (s : FileSystem) (directory : Path)

def perform (p : Project) : Operation here → Project
  | .updateSource u => (p.updateSource u.file u.source u.dialect).2
  | .updateFile s _ file => (p.updateFile s file).toOption.elim p Prod.snd
  | .indexFiles s _ files => (p.indexFiles s files).2
  | .index s _ => (p.index s).2
  | .removeFile file => p.removeFile file
  | .removeDirectory directory => (p.removeDirectory directory).2
  | .refreshLibrary s directory => p.refreshLibrary s directory

def performAll (p : Project) (ops : List (Operation here)) : Project := ops.foldl perform p

/-- The documents that an operation makes of files on disk. -/
def loads (p : Project) : Operation here → List Document
  | .updateFile s _ file => p.loadAll s [file]
  | .indexFiles s _ files => p.loadAll s files
  | .index s _ => p.loadAll s (p.files s)
  | _ => []

/-- The operation reads a file from disk, and what it makes of it is stored. -/
def Rereads (p : Project) (o : Operation here) (k : Path) : Prop :=
  ∃ d ∈ p.loads o, d.file = k ∧ Snapshot.accepts p.config.indexing.allowInvalid d

/-- An editor shows a source for the file. -/
def Operation.edits (o : Operation here) (k : Path) : Bool :=
  match o with
  | .updateSource u => u.file.absolute here = k
  | _ => false

/-- All that an operation can do to the document of a file. -/
inductive Effect (p : Project) (o : Operation here) (k : Path) : Option Document → Prop
  | kept (unread : ¬p.Rereads o k) (unedited : o.edits k = false) : Effect p o k (p.documentAt? k)
  | gone (unread : ¬p.Rereads o k) : Effect p o k none
  | edited {d : Document} (unread : ¬p.Rereads o k) (edits : o.edits k) (placed : k.absolute here = k)
      (revision : d.revision = min (p.revisionAt k + 1) Document.maxRevision) : Effect p o k (some d)
  | reread {d : Document} (reads : p.Rereads o k) (placed : k.absolute here = k)
      (revision : d.revision = 0) : Effect p o k (some d)

variable {o : Operation here} {s : FileSystem}

lemma perform_of_ok {seen : s.workingDirectory = here} (h : p.load s file = .ok d) :
    p.perform (.updateFile s seen file) = (p.publish d).2 := by
  change (p.updateFile s file).toOption.elim p Prod.snd = _
  rw [updateFile_of_ok h]
  rfl

lemma perform_of_error {seen : s.workingDirectory = here} {fault : LoadError}
    (h : p.load s file = .error fault) : p.perform (.updateFile s seen file) = p := by
  change (p.updateFile s file).toOption.elim p Prod.snd = _
  rw [updateFile_of_error h]
  rfl

lemma not_rereads_of_loads (h : p.loads o = []) : ¬p.Rereads o k := by
  rintro ⟨d,hd,-⟩
  rw [h] at hd
  cases hd

/-- What is published takes the place of what was stored for its file. -/
lemma documentAt?_published (hhere : here.IsWorkingDirectory) (hp : p.snapshot.workingDirectory = here)
    (hfile : d.file = file.absolute here) (k : Path) : (p.publish d).2.documentAt? k =
      if k = d.file then (if Snapshot.accepts p.config.indexing.allowInvalid d then some d else none)
      else p.documentAt? k := by
  refine documentAt?_publish ?_ k
  rw [Snapshot.place,hp,hfile]
  exact Path.absolute_absolute hhere

lemma effect_updateSource (hhere : here.IsWorkingDirectory) (hp : p.snapshot.workingDirectory = here)
    (u : Update) (k : Path) :
    Effect p (.updateSource u : Operation here) k ((p.publish (u.document p.snapshot)).2.documentAt? k) := by
  have hfile : (u.document p.snapshot).file = u.file.absolute here := by rw [← hp]; rfl
  have hunread : ¬p.Rereads (.updateSource u : Operation here) k := not_rereads_of_loads rfl
  rw [documentAt?_published hhere hp hfile]
  by_cases hk : k = (u.document p.snapshot).file
  · rw [if_pos hk]
    split
    · rw [hfile] at hk
      refine .edited hunread (decide_eq_true hk.symm) ?_ ?_
      · rw [hk]
        exact Path.absolute_absolute hhere
      · rw [revision_document,Snapshot.place,hp,hk]
    · exact .gone hunread
  · rw [if_neg hk]
    refine .kept hunread (decide_eq_false fun h => hk ?_)
    rw [hfile,h]

lemma effect_updateFile (hhere : here.IsWorkingDirectory) (hp : p.snapshot.workingDirectory = here)
    (seen : s.workingDirectory = here) (file k : Path) :
    Effect p (.updateFile s seen file) k ((p.perform (.updateFile s seen file)).documentAt? k) := by
  cases hload : p.load s file with
  | error fault =>
    rw [perform_of_error hload]
    refine .kept (not_rereads_of_loads ?_) rfl
    simp [loads,loadAll,hload,Except.toOption]
  | ok d =>
    have hloads : p.loads (.updateFile s seen file) = [d] := by simp [loads,loadAll,hload,Except.toOption]
    have hreads : p.Rereads (.updateFile s seen file) k ↔
        d.file = k ∧ Snapshot.accepts p.config.indexing.allowInvalid d := by simp [Rereads,hloads]
    obtain ⟨hfile,hrevision⟩ := made_of_load hload
    rw [seen] at hfile
    rw [perform_of_ok hload,documentAt?_published hhere hp hfile]
    by_cases hk : k = d.file
    · rw [if_pos hk]
      split
      · rename_i haccept
        refine .reread (hreads.mpr ⟨hk.symm,haccept⟩) ?_ hrevision
        rw [hk,hfile]
        exact Path.absolute_absolute hhere
      · rename_i hrefuse
        exact .gone fun h => hrefuse (hreads.mp h).2
    · rw [if_neg hk]
      exact .kept (fun h => hk (hreads.mp h).1.symm) rfl

/-- Of all documents made of a file, the last one stays. -/
lemma effect_indexFiles (hhere : here.IsWorkingDirectory) (hp : p.snapshot.workingDirectory = here)
    (seen : s.workingDirectory = here) {files : List Path} (hloads : p.loads o = p.loadAll s files)
    (hedits : o.edits k = false) : Effect p o k ((p.indexFiles s files).2.documentAt? k) := by
  have hmade (d : Document) (hd : d ∈ p.loadAll s files) :
      (∃ file, d.file = Path.absolute file here) ∧ d.revision = 0 := by
    obtain ⟨file,-,hload⟩ := mem_loadAll.mp hd
    obtain ⟨hfile,hrevision⟩ := made_of_load hload
    exact ⟨⟨file,seen ▸ hfile⟩,hrevision⟩
  have hplace (d : Document) (hd : d ∈ p.loadAll s files) : p.snapshot.place d.file = d.file := by
    obtain ⟨⟨file,hfile⟩,-⟩ := hmade d hd
    rw [Snapshot.place,hp,hfile]
    exact Path.absolute_absolute hhere
  have hafter : (p.indexFiles s files).2.documentAt? k =
      (((p.loadAll s files).filter fun d => d.file = k ∧
        Snapshot.accepts p.config.indexing.allowInvalid d).getLast?).or (p.documentAt? k) := by
    unfold indexFiles documentAt?
    dsimp only
    rw [(documents_indexLibraries s _ _ _).2,snapshot_indexDocuments]
    exact documents_insertLast p.snapshot hplace k
  rw [hafter]
  cases hlast : ((p.loadAll s files).filter fun d => d.file = k ∧
      Snapshot.accepts p.config.indexing.allowInvalid d).getLast? with
  | none =>
    refine .kept ?_ hedits
    rintro ⟨d,hd,hfile⟩
    rw [List.getLast?_eq_none_iff,List.filter_eq_nil_iff] at hlast
    exact hlast d (hloads ▸ hd) (decide_eq_true hfile)
  | some d =>
    obtain ⟨hd,hfile⟩ := List.mem_filter.mp (List.mem_of_getLast? hlast)
    have hfile := of_decide_eq_true hfile
    refine .reread ⟨d,hloads.symm ▸ hd,hfile⟩ ?_ (hmade d hd).2
    rw [← hfile.1,← hp]
    exact hplace d hd

/-- Documents are stored under paths as they are seen from the working directory, and no revision goes beyond
the last one. -/
structure Placed (here : Path) (p : Project) : Prop where
  workingDirectory : p.snapshot.workingDirectory = here
  documents : ∀ k d, p.documentAt? k = some d → k.absolute here = k ∧ d.revision ≤ Document.maxRevision

lemma effect_perform (hhere : here.IsWorkingDirectory) (hp : p.Placed here) (o : Operation here) (k : Path) :
    Settled p (p.perform o) ∧ Effect p o k ((p.perform o).documentAt? k) := by
  have hseen := hp.workingDirectory
  cases o with
  | updateSource u => exact ⟨.publish p _,effect_updateSource hhere hseen u k⟩
  | updateFile s seen file =>
    refine ⟨?_,effect_updateFile hhere hseen seen file k⟩
    cases hload : p.load s file with
    | error fault =>
      rw [perform_of_error hload]
      exact .refl p
    | ok d =>
      rw [perform_of_ok hload]
      exact .publish p d
  | indexFiles s seen files => exact ⟨settled_indexFiles p s files,effect_indexFiles hhere hseen seen rfl rfl⟩
  | index s seen => exact ⟨settled_index p s,effect_indexFiles hhere hseen seen rfl rfl⟩
  | removeFile file =>
    refine ⟨.removeFile p file,?_⟩
    change Effect p _ k ((p.removeFile file).documentAt? k)
    rw [documentAt?_removeFile]
    split
    · exact .gone (not_rereads_of_loads rfl)
    · exact .kept (not_rereads_of_loads rfl) rfl
  | removeDirectory directory =>
    refine ⟨.removeDirectory p directory,?_⟩
    have hplace (f : Path) (hf : (p.documentAt? f).isSome) : p.snapshot.place f = f := by
      obtain ⟨d,hd⟩ := Option.isSome_iff_exists.mp hf
      rw [Snapshot.place,hseen]
      exact (hp.documents f d hd).1
    change Effect p _ k ((p.removeDirectory directory).2.documentAt? k)
    rw [documentAt?_removeDirectory p directory hplace]
    split
    · exact .gone (not_rereads_of_loads rfl)
    · exact .kept (not_rereads_of_loads rfl) rfl
  | refreshLibrary s directory =>
    refine ⟨.refreshLibrary p s directory,?_⟩
    change Effect p _ k ((p.refreshLibrary s directory).documentAt? k)
    rw [documentAt?_refreshLibrary]
    exact .kept (not_rereads_of_loads rfl) rfl

/-- One operation keeps what is true of paths and revisions. -/
theorem Placed.perform (h : p.Placed here) (hhere : here.IsWorkingDirectory) (o : Operation here) :
    (p.perform o).Placed here := by
  refine ⟨?_,fun k d hd => ?_⟩
  · obtain ⟨hsettled,-⟩ := effect_perform hhere h o here
    exact hsettled.workingDirectory.trans h.workingDirectory
  obtain ⟨-,heffect⟩ := effect_perform hhere h o k
  generalize (p.perform o).documentAt? k = after at heffect hd
  cases heffect with
  | kept => exact h.documents k d hd
  | gone => cases hd
  | edited unread edits placed revision =>
    cases hd
    exact ⟨placed,revision ▸ Nat.min_le_right _ _⟩
  | reread reads placed revision =>
    cases hd
    exact ⟨placed,revision ▸ Nat.zero_le _⟩

theorem Placed.performAll (h : p.Placed here) (hhere : here.IsWorkingDirectory) (ops : List (Operation here)) :
    (p.performAll ops).Placed here := by
  induction ops generalizing p with
  | nil => exact h
  | cons o rest ih => exact ih (h.perform hhere o)

/-- A document that stays has the revision that it had, or the next one after an edit, or none when it has
been read from disk. -/
theorem revision_perform (hhere : here.IsWorkingDirectory) (h : p.Placed here) {d' : Document}
    (hd : p.documentAt? k = some d) (hd' : (p.perform o).documentAt? k = some d') :
    (p.Rereads o k → d'.revision = 0) ∧ (¬p.Rereads o k → d'.revision =
      if o.edits k then min (d.revision + 1) Document.maxRevision else d.revision) := by
  obtain ⟨-,heffect⟩ := effect_perform hhere h o k
  generalize (p.perform o).documentAt? k = after at heffect hd'
  cases heffect with
  | kept unread unedited =>
    cases hd.symm.trans hd'
    refine ⟨fun hreads => absurd hreads unread,fun _ => ?_⟩
    rw [if_neg (by simp [unedited])]
  | gone => cases hd'
  | edited unread edits placed revision =>
    cases hd'
    refine ⟨fun hreads => absurd hreads unread,fun _ => ?_⟩
    rw [if_pos edits,revision,revisionAt_of_document hd]
  | reread reads placed revision =>
    cases hd'
    exact ⟨fun _ => revision,fun unread => absurd reads unread⟩

/-- What is read and accepted is stored. -/
lemma exists_of_rereads (hhere : here.IsWorkingDirectory) (h : p.Placed here) (hreads : p.Rereads o k) :
    ∃ d, (p.perform o).documentAt? k = some d := by
  obtain ⟨-,heffect⟩ := effect_perform hhere h o k
  generalize (p.perform o).documentAt? k = after at heffect
  cases heffect with
  | kept unread => exact absurd hreads unread
  | gone unread => exact absurd hreads unread
  | edited unread => exact absurd hreads unread
  | @reread d => exact ⟨d,rfl⟩

lemma performAll_append (p : Project) (ops : List (Operation here)) (o : Operation here) :
    p.performAll (ops ++ [o]) = (p.performAll ops).perform o := by
  rw [performAll,List.foldl_append]
  rfl

/-- Along a run that starts without documents, the revision of a file never falls while there is a document
for it, exactly if no operation of the run reads the file from disk once it has been edited. -/
theorem revision_monotone_iff (hhere : here.IsWorkingDirectory) (hp : p.snapshot.workingDirectory = here)
    (hnone : ∀ k, p.documentAt? k = none) (ops : List (Operation here)) (k : Path) :
    (∀ before o after, ops = before ++ o :: after → ∀ d d', (p.performAll before).documentAt? k = some d →
      (p.performAll (before ++ [o])).documentAt? k = some d' → d.revision ≤ d'.revision) ↔
    ∀ before o after, ops = before ++ o :: after → (p.performAll before).Rereads o k →
      (p.performAll before).revisionAt k = 0 := by
  have hstart : p.Placed here := by
    refine ⟨hp,fun k d hd => ?_⟩
    rw [hnone] at hd
    cases hd
  have hplaced (before : List (Operation here)) := hstart.performAll hhere before
  simp only [performAll_append]
  constructor
  · intro hmonotone before o after hops hreads
    cases hd : (p.performAll before).documentAt? k with
    | none => rw [revisionAt,hd]; rfl
    | some d =>
      obtain ⟨d',hd'⟩ := exists_of_rereads hhere (hplaced before) hreads
      have hle := hmonotone before o after hops d d' hd hd'
      rw [(revision_perform hhere (hplaced before) hd hd').1 hreads] at hle
      rw [revisionAt_of_document hd]
      exact Nat.le_zero.mp hle
  · intro hunedited before o after hops d d' hd hd'
    obtain ⟨hzero,hcounts⟩ := revision_perform hhere (hplaced before) hd hd'
    by_cases hreads : (p.performAll before).Rereads o k
    · rw [hzero hreads,← revisionAt_of_document hd,hunedited before o after hops hreads]
    · have hbound := ((hplaced before).documents k d hd).2
      rw [hcounts hreads]
      split <;> omega

/-- A file is read, and an editor changes its source twice. -/
theorem revision_monotone_of_edits : ∃ (p : Project) (ops : List (Operation ⟨"/"⟩)),
    p.snapshot.workingDirectory = ⟨"/"⟩ ∧ (∀ k, p.documentAt? k = none) ∧ ops.length = 3 ∧
    (p.performAll ops).revisionAt ⟨"/w/A.qml"⟩ = 2 ∧
    ∀ before o after, ops = before ++ o :: after → ∀ d d',
      (p.performAll before).documentAt? ⟨"/w/A.qml"⟩ = some d →
      (p.performAll (before ++ [o])).documentAt? ⟨"/w/A.qml"⟩ = some d' → d.revision ≤ d'.revision := by
  let s : FileSystem := FileSystem.write {} ⟨"/w/A.qml"⟩ "A\x7b\x7d".toUTF8 1
  let edit (source : String) : Operation ⟨"/"⟩ := .updateSource { file := ⟨"/w/A.qml"⟩, source }
  let ops : List (Operation ⟨"/"⟩) :=
    [.updateFile s rfl ⟨"/w/A.qml"⟩,edit "A\x7bx:1\x7d",edit "A\x7bx:2\x7d"]
  have hnone : ∀ k, (new s ⟨"/w"⟩ {}).documentAt? k = none := fun _ => rfl
  refine ⟨new s ⟨"/w"⟩ {},ops,rfl,hnone,rfl,by decide +kernel,?_⟩
  refine (revision_monotone_iff (.inl (by decide)) rfl hnone ops _).mpr ?_
  intro before o after hops hreads
  cases before with
  | nil => rfl
  | cons first rest =>
    have hedit : ∃ source, o = edit source := by
      have ho : o ∈ ops.tail := by
        rw [hops]
        exact List.mem_append_right _ List.mem_cons_self
      obtain rfl | ho := List.mem_cons.mp ho
      · exact ⟨_,rfl⟩
      · exact ⟨_,List.mem_singleton.mp ho⟩
    obtain ⟨source,rfl⟩ := hedit
    exact absurd hreads (not_rereads_of_loads rfl)

/-- An editor has changed the source of a file once when the file is read from disk again. -/
theorem revision_falls_on_reading : ∃ (s : FileSystem) (ops : List (Operation ⟨"/"⟩)) (o : Operation ⟨"/"⟩)
    (d d' : Document),
    ((new s ⟨"/w"⟩ {}).performAll ops).documentAt? ⟨"/w/A.qml"⟩ = some d ∧
    ((new s ⟨"/w"⟩ {}).performAll (ops ++ [o])).documentAt? ⟨"/w/A.qml"⟩ = some d' ∧
    d'.revision < d.revision := by
  let s : FileSystem := FileSystem.write {} ⟨"/w/A.qml"⟩ "A\x7b\x7d".toUTF8 1
  let ops : List (Operation ⟨"/"⟩) :=
    [.index s rfl,.updateSource { file := ⟨"/w/A.qml"⟩, source := "A\x7bx:1\x7d" }]
  let again : Operation ⟨"/"⟩ := .updateFile s rfl ⟨"/w/A.qml"⟩
  have hbefore : (((new s ⟨"/w"⟩ {}).performAll ops).documentAt? ⟨"/w/A.qml"⟩).map Document.revision =
      some 1 := by
    decide +kernel
  have hafter : (((new s ⟨"/w"⟩ {}).performAll (ops ++ [again])).documentAt? ⟨"/w/A.qml"⟩).map
      Document.revision = some 0 := by
    decide +kernel
  obtain ⟨d,hd,hone⟩ := Option.map_eq_some_iff.mp hbefore
  obtain ⟨d',hd',hzero⟩ := Option.map_eq_some_iff.mp hafter
  exact ⟨s,ops,again,d,d',hd,hd',by omega⟩

end Project
end QmlCodeModel
