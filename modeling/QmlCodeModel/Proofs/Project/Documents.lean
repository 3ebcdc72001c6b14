import QmlCodeModel.Project.Basic
import QmlCodeModel.Project.Change
import QmlCodeModel.Proofs.Files.Tree
import QmlCodeModel.Proofs.Snapshot

/-! The documents of a project after it has been indexed, and after a change has been noticed. -/
namespace QmlCodeModel

open Location

namespace Snapshot

variable {s : Snapshot} {d : Document} {file k : Path}

lemma documents_remove (s : Snapshot) (file k : Path) : (s.remove file).documents.get? k =
    if k = s.place file then none else s.documents.get? k := by
  unfold remove
  dsimp only
  split
  · rename_i hnone
    split
    · rename_i hk
      rw [hk,hnone]
    · rfl
  · exact FiniteMap.get?_erase _ _ _

lemma place_remove (s : Snapshot) (file : Path) : (s.remove file).place = s.place := by
  funext k
  unfold place
  rw [workingDirectory_remove]

/-- A document that can be stored. -/
def accepts (allowInvalid : Bool) (d : Document) : Bool := allowInvalid || d.hasProgram

lemma documents_insert (hplace : s.place d.file = d.file) (allowInvalid : Bool) (k : Path) :
    (s.insert d allowInvalid).2.documents.get? k =
      if k = d.file ∧ accepts allowInvalid d then some d else s.documents.get? k := by
  unfold insert accepts
  split
  · rename_i haccept
    unfold store
    simp only [FiniteMap.get?_insert,documents_remove,hplace,haccept,and_true]
    split <;> rfl
  · rename_i hrefuse
    simp [hrefuse]

lemma workingDirectory_insert (s : Snapshot) (d : Document) (allowInvalid : Bool) :
    (s.insert d allowInvalid).2.workingDirectory = s.workingDirectory := by
  unfold insert
  split
  · exact s.workingDirectory_remove d.file
  · rfl

lemma place_insert (s : Snapshot) (d : Document) (allowInvalid : Bool) :
    (s.insert d allowInvalid).2.place = s.place := by
  funext k
  unfold place
  rw [workingDirectory_insert]

end Snapshot

namespace Project

variable {p q : Project} {s : FileSystem} {l : Location} {d : Document} {file : Path}

/-- The document that is made of a file with these bytes, if it can be read. -/
def documentOf? (p : Project) (here file : Path) (bytes : ByteArray) : Option Document :=
  if Dialect.ofPath file = .unknown then none
  else if p.config.indexing.maxFileSize < bytes.size then none
  else (String.fromUTF8? bytes).map (Document.ofSource here file (Dialect.ofPath file))

lemma load_of_file {bytes : ByteArray} {modified : Int} (h : s.entry file = .ok (.file bytes modified)) :
    p.load s file = .ok d ↔ p.documentOf? s.workingDirectory file bytes = some d := by
  unfold load documentOf? FileSystem.size FileSystem.readText FileSystem.read
  rw [h]
  by_cases hdialect : Dialect.ofPath file = .unknown
  · simp [hdialect,bind,Except.bind,throw,throwThe,MonadExceptOf.throw]
  by_cases hsize : p.config.indexing.maxFileSize < bytes.size
  · simp [hdialect,hsize,bind,Except.bind,throw,throwThe,MonadExceptOf.throw,pure,Except.pure,Except.mapError]
  · cases htext : String.fromUTF8? bytes <;>
      simp [hdialect,hsize,htext,bind,Except.bind,throw,throwThe,MonadExceptOf.throw,pure,Except.pure,
        Except.mapError]

lemma load_of_not_file (h : ∀ bytes modified, s.entry file ≠ .ok (.file bytes modified)) :
    p.load s file ≠ .ok d := by
  unfold load FileSystem.size FileSystem.readText FileSystem.read
  cases he : s.entry file with
  | error fault =>
    by_cases hdialect : Dialect.ofPath file = .unknown <;>
      simp [hdialect,bind,Except.bind,throw,throwThe,MonadExceptOf.throw,Except.mapError]
  | ok e =>
    cases e with
    | file bytes modified => exact absurd he (h bytes modified)
    | directory =>
      by_cases hdialect : Dialect.ofPath file = .unknown <;>
        by_cases hsize : p.config.indexing.maxFileSize < directorySize <;>
          simp [hdialect,hsize,bind,Except.bind,throw,throwThe,MonadExceptOf.throw,pure,Except.pure,
            Except.mapError]

/-- A file of the tree is loaded if it can be asked for and read. -/
lemma load_eq_ok (h : Named l) : p.load s (FileSystem.pathOf l) = .ok d ↔ Reachable l ∧
    ∃ bytes, s.tree.content? l = some bytes ∧
      p.documentOf? s.workingDirectory (FileSystem.pathOf l) bytes = some d := by
  by_cases hfile : Reachable l ∧ (s.tree.content? l).isSome
  · obtain ⟨hreach,hsome⟩ := hfile
    obtain ⟨bytes,hbytes⟩ := Option.isSome_iff_exists.mp hsome
    obtain ⟨modified,he⟩ := FileTree.entry?_of_content hbytes
    rw [load_of_file ((FileSystem.entry_eq_ok h).mpr ⟨hreach,he⟩)]
    simp [hreach,hbytes]
  · constructor
    · intro hload
      refine absurd hload (load_of_not_file ?_)
      intro bytes modified he
      obtain ⟨hreach,he⟩ := (FileSystem.entry_eq_ok h).mp he
      apply hfile
      refine ⟨hreach,?_⟩
      unfold FileTree.content?
      rw [he]
      rfl
    · rintro ⟨hreach,bytes,hbytes,-⟩
      exact absurd ⟨hreach,by simp [hbytes]⟩ hfile

lemma file_of_load (h : Named l) (hload : p.load s (FileSystem.pathOf l) = .ok d) :
    d.file = FileSystem.pathOf l := by
  obtain ⟨-,bytes,-,hdocument⟩ := (load_eq_ok h).mp hload
  unfold documentOf? at hdocument
  split at hdocument
  · cases hdocument
  split at hdocument
  · cases hdocument
  · obtain ⟨source,-,rfl⟩ := Option.map_eq_some_iff.mp hdocument
    exact FileSystem.absolute_pathOf h _

/-- What is loaded follows from the settings. -/
lemma load_congr (h : p.config = q.config) (s : FileSystem) (file : Path) : p.load s file = q.load s file := by
  unfold load
  rw [h]

/-! What is done to a project. -/

lemma updateFile_of_ok (h : p.load s file = .ok d) : p.updateFile s file = .ok (p.publish d) := by
  unfold updateFile
  rw [h]
  rfl

lemma updateFile_of_error {fault : LoadError} (h : p.load s file = .error fault) :
    p.updateFile s file = .error fault := by
  unfold updateFile
  rw [h]
  rfl

/-- The documents of a project by file. -/
def documentAt? (p : Project) (file : Path) : Option Document := p.snapshot.documents.get? file

lemma documentAt?_publish (hplace : p.snapshot.place d.file = d.file) (file : Path) :
    (p.publish d).2.documentAt? file = if file = d.file then
      (if Snapshot.accepts p.config.indexing.allowInvalid d then some d else none)
    else p.documentAt? file := by
  have hplace' : (p.snapshot.remove d.file).place d.file = d.file := by
    rw [Snapshot.place_remove]
    exact hplace
  unfold publish documentAt?
  simp only [Snapshot.documents_insert hplace',Snapshot.documents_remove,hplace]
  by_cases hfile : file = d.file
  · by_cases haccept : Snapshot.accepts p.config.indexing.allowInvalid d <;> simp [hfile,haccept]
  · simp [hfile]

lemma documentAt?_removeFile (p : Project) (file k : Path) : (p.removeFile file).documentAt? k =
    if k = p.snapshot.place file then none else p.documentAt? k := Snapshot.documents_remove _ _ _

lemma documentAt?_removeFiles (p : Project) (files : List Path)
    (hplace : ∀ f ∈ files, p.snapshot.place f = f) (k : Path) :
    (files.foldl removeFile p).documentAt? k = if k ∈ files then none else p.documentAt? k := by
  induction files generalizing p with
  | nil => simp
  | cons f rest ih =>
    have hf := hplace f List.mem_cons_self
    have hrest (g : Path) (hg : g ∈ rest) : (p.removeFile f).snapshot.place g = g := by
      change (p.snapshot.remove f).place g = g
      rw [Snapshot.place_remove]
      exact hplace g (List.mem_cons_of_mem _ hg)
    rw [List.foldl_cons,ih _ hrest,documentAt?_removeFile,hf]
    by_cases hk : k = f <;> by_cases hmem : k ∈ rest <;> simp [hk,hmem]

/-- Libraries are no documents. -/
lemma documents_removeLibraries (p : Project) (directories : List Path) :
    (directories.foldl removeLibrary p).snapshot.documents = p.snapshot.documents := by
  induction directories generalizing p with
  | nil => rfl
  | cons directory rest ih => exact ih _

lemma documentAt?_removeDirectory (p : Project) (directory : Path)
    (hplace : ∀ f, (p.documentAt? f).isSome → p.snapshot.place f = f) (k : Path) :
    (p.removeDirectory directory).2.documentAt? k =
      if k.isWithin directory then none else p.documentAt? k := by
  have hkeys (f : Path) (hf : f ∈ p.snapshot.documents.keys.filter (·.isWithin directory)) :
      p.snapshot.place f = f :=
    hplace f (FiniteMap.mem_keys_iff.mp (List.mem_filter.mp hf).1)
  unfold removeDirectory
  rw [documentAt?,documents_removeLibraries]
  change (documentAt? (List.foldl removeFile p _) k) = _
  rw [documentAt?_removeFiles p _ hkeys]
  by_cases hmem : k ∈ p.snapshot.documents.keys.filter (·.isWithin directory)
  · rw [if_pos hmem,if_pos (List.mem_filter.mp hmem).2]
  · rw [if_neg hmem]
    by_cases hwithin : k.isWithin directory
    · rw [if_pos hwithin]
      rw [List.mem_filter,FiniteMap.mem_keys_iff] at hmem
      simpa [hwithin,documentAt?] using hmem
    · rw [if_neg hwithin]

lemma documentAt?_refreshLibrary (p : Project) (s : FileSystem) (directory k : Path) :
    (p.refreshLibrary s directory).documentAt? k = p.documentAt? k := by
  unfold refreshLibrary documentAt?
  dsimp only
  split <;> rfl

/-- Settings and the place from which paths are seen, which no change touches. -/
structure Settled (p p' : Project) : Prop where
  root : p'.root = p.root
  config : p'.config = p.config
  workingDirectory : p'.snapshot.workingDirectory = p.snapshot.workingDirectory

namespace Settled

variable {p p' p'' : Project}

lemma refl (p : Project) : Settled p p := ⟨rfl,rfl,rfl⟩

lemma trans (h : Settled p p') (h' : Settled p' p'') : Settled p p'' :=
  ⟨h'.root.trans h.root,h'.config.trans h.config,h'.workingDirectory.trans h.workingDirectory⟩

lemma foldl {α : Type} {f : Project → α → Project} (h : ∀ p x, Settled p (f p x)) (p : Project)
    (xs : List α) : Settled p (xs.foldl f p) := by
  induction xs generalizing p with
  | nil => exact refl p
  | cons x xs ih => exact (h p x).trans (ih _)

lemma removeFile (p : Project) (file : Path) : Settled p (p.removeFile file) :=
  ⟨rfl,rfl,p.snapshot.workingDirectory_remove file⟩

lemma removeLibrary (p : Project) (directory : Path) : Settled p (p.removeLibrary directory) :=
  ⟨rfl,rfl,rfl⟩

lemma removeDirectory (p : Project) (directory : Path) : Settled p (p.removeDirectory directory).2 :=
  (foldl removeFile p _).trans (foldl removeLibrary _ _)

lemma refreshLibrary (p : Project) (s : FileSystem) (directory : Path) :
    Settled p (p.refreshLibrary s directory) := by
  unfold Project.refreshLibrary
  refine ⟨rfl,rfl,?_⟩
  dsimp only
  split <;> rfl

lemma publish (p : Project) (d : Document) : Settled p (p.publish d).2 := by
  refine ⟨rfl,rfl,?_⟩
  exact ((p.snapshot.remove d.file).workingDirectory_insert d _).trans
    (p.snapshot.workingDirectory_remove d.file)

end Settled

/-- All that taking notice of a path can do to the documents, and when. -/
inductive Notices (p : Project) (s : FileSystem) (path : Path) (p' : Project) : Prop
  | library (name : path.fileName? = some Qmldir.fileName)
    (documents : ∀ k, p'.documentAt? k = p.documentAt? k)
  | outside (alien : p.admits path = false) (there : s.contains path)
    (documents : ∀ k, p'.documentAt? k = p.documentAt? k)
  | directory (alien : p.admits path = false) (gone : s.contains path = false)
    (documents : ∀ k, p'.documentAt? k = if k.isWithin path then none else p.documentAt? k)
  | removed (admitted : p.admits path) (gone : s.isFile path = false)
    (documents : ∀ k, p'.documentAt? k = if k = path then none else p.documentAt? k)
  | updated {d : Document} (admitted : p.admits path) (there : s.isFile path) (load : p.load s path = .ok d)
    (documents : ∀ k, p'.documentAt? k = if k = path then
      (if Snapshot.accepts p.config.indexing.allowInvalid d then some d else none) else p.documentAt? k)
  | unreadable {fault : LoadError} (admitted : p.admits path) (there : s.isFile path)
    (load : p.load s path = .error fault) (documents : ∀ k, p'.documentAt? k = p.documentAt? k)

lemma notices_noticePath (hl : Named l)
    (hplace : ∀ f, (p.documentAt? f).isSome → p.snapshot.place f = f) :
    Settled p (p.noticePath s (FileSystem.pathOf l)).2 ∧
      Notices p s (FileSystem.pathOf l) (p.noticePath s (FileSystem.pathOf l)).2 := by
  have hself : p.snapshot.place (FileSystem.pathOf l) = FileSystem.pathOf l :=
    FileSystem.absolute_pathOf hl _
  unfold noticePath
  split
  · rename_i directory hdirectory
    obtain ⟨name,hname,-⟩ := Option.bind_eq_some_iff.mp hdirectory
    obtain ⟨hname,hqmldir⟩ := Option.filter_eq_some_iff.mp hname
    rw [of_decide_eq_true hqmldir] at hname
    exact ⟨.refreshLibrary p s directory,.library hname (documentAt?_refreshLibrary p s directory)⟩
  split
  · rename_i halien
    have halien : p.admits (FileSystem.pathOf l) = false := by simpa using halien
    split
    · rename_i hthere
      exact ⟨.refl p,.outside halien hthere fun _ => rfl⟩
    · rename_i hgone
      refine ⟨.removeDirectory p _,.directory halien (Bool.eq_false_iff.mpr hgone) ?_⟩
      exact documentAt?_removeDirectory p _ hplace
  rename_i hadmitted
  have hadmitted : p.admits (FileSystem.pathOf l) := by simpa using hadmitted
  split
  · rename_i hgone
    have hgone : s.isFile (FileSystem.pathOf l) = false := by simpa using hgone
    refine ⟨.removeFile p _,.removed hadmitted hgone ?_⟩
    intro k
    rw [documentAt?_removeFile,hself]
  rename_i hthere
  have hthere : s.isFile (FileSystem.pathOf l) := by simpa using hthere
  cases hload : p.load s (FileSystem.pathOf l) with
  | error fault =>
    rw [updateFile_of_error hload]
    exact ⟨.refl p,.unreadable hadmitted hthere hload fun _ => rfl⟩
  | ok d =>
    have hfile := file_of_load hl hload
    rw [updateFile_of_ok hload]
    refine ⟨.publish p d,.updated hadmitted hthere hload ?_⟩
    intro k
    rw [← hfile]
    exact documentAt?_publish (by rw [hfile,hself]) k

/-! Indexing. -/

/-- Of documents that are stored one after the other, the last one for a file stays. -/
lemma documents_insertLast {docs : List Document} {allowInvalid : Bool} (m : Snapshot)
    (hplace : ∀ e ∈ docs, m.place e.file = e.file) (k : Path) :
    (docs.foldl (fun m e => (m.insert e allowInvalid).2) m).documents.get? k =
      ((docs.filter fun e => e.file = k ∧ Snapshot.accepts allowInvalid e).getLast?).or
        (m.documents.get? k) := by
  induction docs generalizing m with
  | nil => rfl
  | cons e rest ih =>
    have hrest : ∀ e' ∈ rest, (m.insert e allowInvalid).2.place e'.file = e'.file := by
      intro e' he'
      rw [Snapshot.place_insert]
      exact hplace e' (List.mem_cons_of_mem _ he')
    rw [List.foldl_cons,ih _ hrest,Snapshot.documents_insert (hplace e List.mem_cons_self),List.filter_cons]
    by_cases hk : e.file = k ∧ Snapshot.accepts allowInvalid e
    · rw [if_pos ⟨hk.1.symm,hk.2⟩,if_pos (decide_eq_true hk),List.getLast?_cons]
      cases (rest.filter _).getLast? <;> rfl
    · rw [if_neg fun h => hk ⟨h.1.symm,h.2⟩,if_neg (by simpa using hk)]

/-- Of one file there is one document, whether stored before or now. -/
lemma documents_insertAll {docs : List Document} {allowInvalid : Bool} (m : Snapshot)
    (hplace : ∀ e ∈ docs, m.place e.file = e.file) (hone : ∀ e ∈ docs, ∀ e' ∈ docs, e.file = e'.file → e = e')
    (hold : ∀ e ∈ docs, ∀ d, m.documents.get? e.file = some d → d = e) (k : Path) (d : Document) :
    (docs.foldl (fun m e => (m.insert e allowInvalid).2) m).documents.get? k = some d ↔
      m.documents.get? k = some d ∨ d ∈ docs ∧ d.file = k ∧ Snapshot.accepts allowInvalid d := by
  rw [documents_insertLast m hplace k]
  cases hlast : (docs.filter fun e => e.file = k ∧ Snapshot.accepts allowInvalid e).getLast? with
  | none =>
    rw [List.getLast?_eq_none_iff,List.filter_eq_nil_iff] at hlast
    rw [Option.none_or]
    exact (or_iff_left fun hd => hlast d hd.1 (decide_eq_true hd.2)).symm
  | some e =>
    obtain ⟨he,hstored⟩ := List.mem_filter.mp (List.mem_of_getLast? hlast)
    obtain ⟨rfl,haccept⟩ := of_decide_eq_true hstored
    rw [Option.some_or]
    constructor
    · rintro h
      cases h
      exact .inr ⟨he,rfl,haccept⟩
    · rintro (h | ⟨hd,hfile,-⟩)
      · rw [hold e he d h]
      · rw [hone d hd e he hfile]

lemma snapshot_indexDocuments (allowInvalid : Bool) (docs : List Document) (counts : IndexCounts)
    (m : Snapshot) :
    (docs.foldl (fun (counts,m) d => indexDocument allowInvalid counts m d) (counts,m)).2 =
      docs.foldl (fun m d => (m.insert d allowInvalid).2) m := by
  induction docs generalizing counts m with
  | nil => rfl
  | cons d rest ih =>
    rw [List.foldl_cons,List.foldl_cons]
    have hstep : (indexDocument allowInvalid counts m d).2 = (m.insert d allowInvalid).2 := by
      unfold indexDocument
      dsimp only
      split <;> rfl
    rw [← hstep]
    exact ih _ _

lemma documents_indexLibraries (s : FileSystem) (directories : List Path) (counts : IndexCounts)
    (p : Project) :
    Settled p (directories.foldl (fun (counts,p) directory => indexLibrary s counts p directory) (counts,p)).2 ∧
    (directories.foldl (fun (counts,p) directory => indexLibrary s counts p directory)
      (counts,p)).2.snapshot.documents = p.snapshot.documents := by
  induction directories generalizing counts p with
  | nil => exact ⟨.refl p,rfl⟩
  | cons directory rest ih =>
    have hstep : Settled p (indexLibrary s counts p directory).2 ∧
        (indexLibrary s counts p directory).2.snapshot.documents = p.snapshot.documents := by
      unfold indexLibrary
      dsimp only
      split <;> exact ⟨⟨rfl,rfl,rfl⟩,rfl⟩
    rw [List.foldl_cons]
    obtain ⟨hsettled,hdocuments⟩ := ih (indexLibrary s counts p directory).1 (indexLibrary s counts p directory).2
    exact ⟨hstep.1.trans hsettled,hdocuments.trans hstep.2⟩

lemma mem_files : file ∈ p.files s ↔ file ∈ s.filesBelow p.root ∧ p.admits file := by
  unfold files
  rw [List.mem_mergeSort,List.mem_filter]

/-- What is known of documents after indexing, when none was known before. -/
lemma documentAt?_index (hnone : ∀ k, p.documentAt? k = none)
    (hfiles : ∀ f ∈ p.files s, ∃ l, f = FileSystem.pathOf l ∧ Named l) (k : Path) (d : Document) :
    (p.index s).2.documentAt? k = some d ↔ k ∈ p.files s ∧ p.load s k = .ok d ∧
      Snapshot.accepts p.config.indexing.allowInvalid d := by
  have hloaded (e : Document) (he : e ∈ (p.files s).filterMap fun file => (p.load s file).toOption) :
      e.file ∈ p.files s ∧ p.load s e.file = .ok e := by
    obtain ⟨f,hf,hload⟩ := List.mem_filterMap.mp he
    have hload : p.load s f = .ok e := by
      cases h : p.load s f with
      | error fault =>
        rw [h] at hload
        cases hload
      | ok e' =>
        rw [h] at hload
        cases hload
        rfl
    obtain ⟨l,rfl,hl⟩ := hfiles f hf
    rw [file_of_load hl hload]
    exact ⟨hf,hload⟩
  have hplace (e : Document) (he : e ∈ (p.files s).filterMap fun file => (p.load s file).toOption) :
      p.snapshot.place e.file = e.file := by
    obtain ⟨l,hfile,hl⟩ := hfiles _ (hloaded e he).1
    rw [hfile]
    exact FileSystem.absolute_pathOf hl _
  unfold index indexFiles documentAt?
  dsimp only
  rw [(documents_indexLibraries s _ _ _).2]
  rw [snapshot_indexDocuments,documents_insertAll p.snapshot hplace]
  · have hk : p.snapshot.documents.get? k = none := hnone k
    rw [hk]
    constructor
    · rintro (h | ⟨he,rfl,haccept⟩)
      · cases h
      · exact ⟨(hloaded d he).1,(hloaded d he).2,haccept⟩
    · rintro ⟨hfile,hload,haccept⟩
      obtain ⟨l,rfl,hl⟩ := hfiles k hfile
      refine .inr ⟨List.mem_filterMap.mpr ⟨_,hfile,?_⟩,file_of_load hl hload,haccept⟩
      rw [hload]
      rfl
  · intro e he e' he' hfile
    have h := (hloaded e he).2
    rw [hfile,(hloaded e' he').2] at h
    exact (Except.ok.inj h).symm
  · intro e he d hd
    have h : p.snapshot.documents.get? e.file = none := hnone e.file
    rw [h] at hd
    cases hd

lemma workingDirectory_insertAll (allowInvalid : Bool) (docs : List Document) (m : Snapshot) :
    (docs.foldl (fun m d => (m.insert d allowInvalid).2) m).workingDirectory = m.workingDirectory := by
  induction docs generalizing m with
  | nil => rfl
  | cons d rest ih => rw [List.foldl_cons,ih,Snapshot.workingDirectory_insert]

lemma settled_indexFiles (p : Project) (s : FileSystem) (files : List Path) :
    Settled p (p.indexFiles s files).2 := by
  unfold indexFiles
  dsimp only
  have hdocuments (m : Snapshot) (h : m.workingDirectory = p.snapshot.workingDirectory) :
      Settled p { p with snapshot := m } := ⟨rfl,rfl,h⟩
  apply (hdocuments _ _).trans (documents_indexLibraries s _ _ _).1
  rw [snapshot_indexDocuments,workingDirectory_insertAll]

lemma settled_index (p : Project) (s : FileSystem) : Settled p (p.index s).2 :=
  settled_indexFiles p s (p.files s)

end Project

end QmlCodeModel
