import Mathlib.Data.Set.List
import QmlCodeModel.Proofs.Import.Dependents
import QmlCodeModel.Proofs.Project.Revisions

/-! Spellings of one path. All that looks for a place, or takes out what is stored at one, sees the path from the
working directory first, so any spelling will do. What takes out all that is below a directory compares the
steps as they are written. -/
namespace QmlCodeModel

namespace Path

variable {p q k here : Path}

/-- The path is written with the steps that it has when it is seen from the working directory. -/
def WrittenOut (p here : Path) : Prop := p.components = (p.absolute here).components

instance (p here : Path) : Decidable (p.WrittenOut here) :=
  inferInstanceAs (Decidable (p.components = (p.absolute here).components))

lemma Direct.Clean.dropLast {d : Direct} (h : d.Clean) :
    ∃ e : Direct, e.Clean ∧ e.toPath.components = d.toPath.components.dropLast := by
  rw [h.components]
  cases hreversed : d.reversed with
  | cons last rest =>
    have hrest : Direct.Clean { d with reversed := rest } :=
      ⟨h.ups,fun text ht => h.names text (hreversed ▸ List.mem_cons_of_mem _ ht)⟩
    refine ⟨_,hrest,?_⟩
    rw [hrest.components]
    simp [← List.append_assoc]
  | nil =>
    cases hups : d.ups with
    | succ ups =>
      have habsolute : ¬d.absolute := fun habsolute => by simp [h.ups habsolute] at hups
      have hfewer : Direct.Clean { d with ups } :=
        ⟨fun h => absurd h habsolute,h.names⟩
      refine ⟨_,hfewer,?_⟩
      rw [hfewer.components]
      simp [habsolute,hreversed,List.replicate_succ']
    | zero =>
      refine ⟨{},⟨fun _ => rfl,by simp⟩,?_⟩
      cases d.absolute <;> rfl

/-- The first steps of a clean path are those of a clean path. -/
lemma Direct.Clean.of_leading {d : Direct} (h : d.Clean) {steps : List Component}
    (hsteps : steps <+: d.toPath.components) : ∃ e : Direct, e.Clean ∧ e.toPath.components = steps := by
  obtain ⟨rest,hrest⟩ := hsteps
  induction rest generalizing steps with
  | nil => exact ⟨d,h,by rw [← hrest,List.append_nil]⟩
  | cons step rest ih =>
    have hlonger : (steps ++ [step]) ++ rest = d.toPath.components := by
      rw [← hrest,List.append_assoc]
      rfl
    obtain ⟨e,he,hmore⟩ := ih hlonger
    obtain ⟨e',he',hdropped⟩ := he.dropLast
    exact ⟨e',he',by rw [hdropped,hmore,List.dropLast_concat]⟩

lemma isAbsolute_of_head {p : Path} (h : p.clean.components.head? = some .root) : p.clean.isAbsolute := by
  have habsolute := (clean_direct p).head_components.mp h
  simp [clean,Direct.toPath,habsolute,isAbsolute]

lemma clean_isEmpty {p : Path} (h : p.components = []) : p.clean.isEmpty := by
  rw [clean,direct,h]
  rfl

/-- A path that a clean one leads through has nothing to be cleaned. -/
lemma components_clean_of_leading (hk : k.clean = k) (h : p.components <+: k.components) :
    p.clean.components = p.components := by
  rw [← hk] at h
  obtain ⟨e,he,hsteps⟩ := (clean_direct k).of_leading h
  have hdirect : p.direct = e := by rw [direct,← hsteps,← direct,he.direct_toPath]
  rw [clean,hdirect,hsteps]

/-- What has been seen from the working directory leads only through paths that are written out. -/
lemma writtenOut_of_isWithin (hhere : here.IsWorkingDirectory) (hk : k.absolute here = k)
    (h : k.isWithin p) : p.WrittenOut here := by
  have hclean : k.clean = k := by rw [← hk,clean_absolute]
  obtain ⟨rest,hrest⟩ := List.isPrefixOf_iff_prefix.mp h
  have hsteps := components_clean_of_leading hclean ⟨rest,hrest⟩
  by_cases hfinal : p.clean.isAbsolute || p.clean.isEmpty
  · rw [WrittenOut,absolute,if_pos hfinal,hsteps]
  -- A relative path leads only through relative ones, which are seen as they are where there is no
  -- working directory.
  obtain ⟨hrelative,hempty⟩ : ¬p.clean.isAbsolute ∧ ¬p.clean.isEmpty := by simpa using hfinal
  obtain ⟨step,steps,hp⟩ := List.exists_cons_of_ne_nil fun hnil => hempty (clean_isEmpty hnil)
  rw [hp,List.cons_append] at hrest
  have hknonempty : ¬k.isEmpty := by
    intro hk
    rw [components_of_isEmpty hk] at hrest
    cases hrest
  have hkrelative : ¬k.isAbsolute := by
    intro hk
    refine hrelative (isAbsolute_of_head ?_)
    rw [components,if_pos hk] at hrest
    rw [hsteps,hp,(List.cons.inj hrest).1]
    rfl
  have hnowhere : here.isEmpty := by
    refine hhere.resolve_left fun habsolute => hkrelative ?_
    rw [← hk,absolute,hclean,if_neg (by simp [hkrelative,hknonempty])]
    exact isAbsolute_clean (isAbsolute_join habsolute k)
  rw [WrittenOut,absolute,if_neg hfinal,join_of_isEmpty hnowhere,clean_clean,hsteps]

lemma exists_names {parts : List (List Char)} (h : .parent ∉ Component.ofParts parts) :
    ∃ names : List String, Component.ofParts parts = names.map .name := by
  have hname (c : Component) (hc : c ∈ Component.ofParts parts) : ∃ text, Component.name text = c := by
    obtain ⟨part,-,hpart⟩ := List.mem_filterMap.mp hc
    split at hpart
    · cases hpart
    split at hpart
    · cases hpart
      exact absurd hc h
    · exact ⟨_,Option.some.inj hpart⟩
  have hrange : Component.ofParts parts ∈ Set.range (List.map Component.name) := by
    rw [Set.range_list_map]
    exact hname
  obtain ⟨names,hnames⟩ := hrange
  exact ⟨names,hnames.symm⟩

lemma isAbsolute_or_isEmpty (h : here.isAbsolute) (p : Path) :
    (p.absolute here).isAbsolute ∨ (p.absolute here).isEmpty := by
  unfold absolute
  dsimp only
  split
  · rename_i hfinal
    simpa using hfinal
  · exact .inl (isAbsolute_clean (isAbsolute_join h _))

/-- From an absolute working directory, those paths are written out that start with a slash and have no step
up, and the path without steps. -/
lemma writtenOut_iff (hhere : here.isAbsolute) :
    p.WrittenOut here ↔ p.components = [] ∨ p.isAbsolute ∧ .parent ∉ p.components := by
  constructor
  · intro h
    obtain habsolute | hempty := isAbsolute_or_isEmpty hhere p
    · have hclean := clean_direct (p.absolute here)
      have hdirect := absolute_direct habsolute
      have hsteps := hclean.components
      rw [show (p.absolute here).direct.toPath = p.absolute here from clean_absolute p here,← h,
        if_pos hdirect,hclean.ups hdirect] at hsteps
      refine .inr ⟨?_,by simp [hsteps]⟩
      by_contra hrelative
      exact root_notMem_components hrelative (by simp [hsteps])
    · exact .inl (h.trans (components_of_isEmpty hempty))
  · rintro (hnone | ⟨habsolute,hparent⟩)
    · have hempty := clean_isEmpty hnone
      rw [WrittenOut,absolute,hempty,Bool.or_true,if_pos rfl,hnone,components_of_isEmpty hempty]
    · have hroot : p.components = .root :: Component.ofParts (splitOnChar '/' p.text.toList) := by
        rw [components,if_pos habsolute]
      obtain ⟨names,hnames⟩ := exists_names fun h => hparent (hroot ▸ List.mem_cons_of_mem _ h)
      have hdirect : p.direct = { absolute := true, reversed := names.reverse } := by
        rw [direct,hroot,hnames,List.foldl_cons,foldl_names]
        simp [Direct.step]
      rw [WrittenOut,absolute_of_isAbsolute habsolute,clean,(clean_direct p).components,hdirect,hroot,hnames]
      simp

lemma isWithin_of_writtenOut (h : p.WrittenOut here) (k : Path) :
    k.isWithin p = k.isWithin (p.absolute here) := by
  rw [isWithin,h]
  rfl

end Path

namespace Snapshot

variable {s : Snapshot} {p q : Path}

/-- Looking up and taking out depend on the place only. -/
lemma congr_place (h : s.place p = s.place q) :
    s.document? p = s.document? q ∧ s.documentsIn p = s.documentsIn q ∧ s.library? p = s.library? q ∧
      s.remove p = s.remove q ∧ s.removeLibrary p = s.removeLibrary q := by
  refine ⟨?_,?_,?_,?_,?_⟩
  · rw [document?,h,document?]
  · rw [documentsIn,h,documentsIn]
  · rw [library?,h,library?]
  · rw [remove,h,remove]
  · rw [removeLibrary,h,removeLibrary]

lemma libraries_remove (s : Snapshot) (file : Path) : (s.remove file).libraries = s.libraries := by
  unfold remove
  dsimp only
  split <;> rfl

lemma libraries_insert (s : Snapshot) (d : Document) (allowInvalid : Bool) :
    (s.insert d allowInvalid).2.libraries = s.libraries := by
  unfold insert
  split
  · exact s.libraries_remove d.file
  · rfl

lemma libraries_insertAll (s : Snapshot) (allowInvalid : Bool) (documents : List Document) :
    (documents.foldl (fun m d => (m.insert d allowInvalid).2) s).libraries = s.libraries := by
  induction documents generalizing s with
  | nil => rfl
  | cons d rest ih => rw [List.foldl_cons,ih,libraries_insert]

end Snapshot

namespace Project

variable {p q here k : Path} {x y : Project}

/-- Libraries are stored under paths as they are seen from the working directory. -/
structure Housed (here : Path) (x : Project) : Prop where
  workingDirectory : x.snapshot.workingDirectory = here
  libraries : ∀ k, (x.snapshot.libraries.get? k).isSome → k.absolute here = k

namespace Housed

lemma of_libraries_eq (h : x.Housed here) (hsettled : Settled x y)
    (hlibraries : y.snapshot.libraries = x.snapshot.libraries) : y.Housed here :=
  ⟨hsettled.workingDirectory.trans h.workingDirectory,fun k hk => h.libraries k (hlibraries ▸ hk)⟩

lemma insertLibrary (h : x.Housed here) (hhere : here.IsWorkingDirectory) (directory : Path) (l : Library)
    (registry : LibraryRegistry) :
    Housed here { x with registry, snapshot := x.snapshot.insertLibrary directory l } := by
  refine ⟨h.workingDirectory,fun k hk => ?_⟩
  simp only [Snapshot.insertLibrary,FiniteMap.get?_insert] at hk
  split at hk
  · rename_i hplace
    rw [hplace,Snapshot.place,h.workingDirectory]
    exact Path.absolute_absolute hhere
  · exact h.libraries k hk

lemma removeLibrary (h : x.Housed here) (directory : Path) (registry : LibraryRegistry) :
    Housed here { x with registry, snapshot := x.snapshot.removeLibrary directory } := by
  refine ⟨h.workingDirectory,fun k hk => ?_⟩
  simp only [Snapshot.removeLibrary,FiniteMap.get?_erase] at hk
  split at hk
  · cases hk
  · exact h.libraries k hk

lemma removeFile (h : x.Housed here) (file : Path) : (x.removeFile file).Housed here :=
  h.of_libraries_eq (.removeFile x file) (x.snapshot.libraries_remove file)

lemma publish (h : x.Housed here) (d : Document) : (x.publish d).2.Housed here := by
  refine h.of_libraries_eq (.publish x d) ?_
  unfold Project.publish
  dsimp only
  rw [Snapshot.libraries_insert,Snapshot.libraries_remove]

lemma removeFiles (h : x.Housed here) (files : List Path) : (files.foldl Project.removeFile x).Housed here := by
  induction files generalizing x with
  | nil => exact h
  | cons file rest ih => exact ih (h.removeFile file)

lemma removeLibraries (h : x.Housed here) (directories : List Path) :
    (directories.foldl Project.removeLibrary x).Housed here := by
  induction directories generalizing x with
  | nil => exact h
  | cons directory rest ih => exact ih (h.removeLibrary directory _)

lemma indexLibrary (h : x.Housed here) (hhere : here.IsWorkingDirectory) (s : FileSystem)
    (counts : IndexCounts) (directory : Path) : (Project.indexLibrary s counts x directory).2.Housed here := by
  unfold Project.indexLibrary
  dsimp only
  split
  · exact h.insertLibrary hhere directory _ _
  · exact ⟨h.workingDirectory,h.libraries⟩

lemma indexLibraries (h : x.Housed here) (hhere : here.IsWorkingDirectory) (s : FileSystem)
    (counts : IndexCounts) (directories : List Path) :
    (directories.foldl (fun y directory => Project.indexLibrary s y.1 y.2 directory) (counts,x)).2.Housed here := by
  induction directories generalizing counts x with
  | nil => exact h
  | cons directory rest ih => exact ih (h.indexLibrary hhere s counts directory) _

lemma indexFiles (h : x.Housed here) (hhere : here.IsWorkingDirectory) (s : FileSystem) (files : List Path) :
    (x.indexFiles s files).2.Housed here := by
  unfold Project.indexFiles
  refine indexLibraries ⟨?_,?_⟩ hhere s _ _
  · dsimp only
    rw [snapshot_indexDocuments,workingDirectory_insertAll]
    exact h.workingDirectory
  · dsimp only
    rw [snapshot_indexDocuments,Snapshot.libraries_insertAll]
    exact h.libraries

lemma refreshLibrary (h : x.Housed here) (hhere : here.IsWorkingDirectory) (s : FileSystem)
    (directory : Path) : (x.refreshLibrary s directory).Housed here := by
  unfold Project.refreshLibrary
  dsimp only
  split
  · exact h.insertLibrary hhere directory _ _
  · exact h.removeLibrary directory _

/-- One operation keeps libraries under paths as they are seen from the working directory. -/
theorem perform (h : x.Housed here) (hhere : here.IsWorkingDirectory) (o : Operation here) :
    (x.perform o).Housed here := by
  cases o with
  | updateSource u => exact h.publish _
  | updateFile s seen file =>
    cases hload : x.load s file with
    | error fault => rwa [perform_of_error hload]
    | ok d =>
      rw [perform_of_ok hload]
      exact h.publish d
  | indexFiles s seen files => exact h.indexFiles hhere s files
  | index s seen => exact h.indexFiles hhere s _
  | removeFile file => exact h.removeFile file
  | removeDirectory directory => exact (h.removeFiles _).removeLibraries _
  | refreshLibrary s directory => exact h.refreshLibrary hhere s directory

theorem performAll (h : x.Housed here) (hhere : here.IsWorkingDirectory) (ops : List (Operation here)) :
    (x.performAll ops).Housed here := by
  induction ops generalizing x with
  | nil => exact h
  | cons o rest ih => exact ih (h.perform hhere o)

end Housed

/-- Something is stored for the path, or for one below it. -/
def Occupied (x : Project) (p : Path) : Prop :=
  ∃ k, k.isWithin p ∧ (k ∈ x.snapshot.documents.keys ∨ k ∈ x.snapshot.libraries.keys)

/-- All that is stored is stored under paths as they are seen from the working directory. -/
lemma placed_of_mem_keys (hplaced : x.Placed here) (hhoused : x.Housed here)
    (hk : k ∈ x.snapshot.documents.keys ∨ k ∈ x.snapshot.libraries.keys) : k.absolute here = k := by
  obtain hk | hk := hk
  · obtain ⟨d,hd⟩ := Option.isSome_iff_exists.mp (FiniteMap.mem_keys_iff.mp hk)
    exact (hplaced.documents k d hd).1
  · exact hhoused.libraries k (FiniteMap.mem_keys_iff.mp hk)

/-- A directory that is written out is emptied, whatever its spelling. -/
lemma removeDirectory_of_writtenOut (h : p.WrittenOut here) :
    x.removeDirectory p = x.removeDirectory (p.absolute here) := by
  have hwithin : (fun k : Path => k.isWithin p) = fun k => k.isWithin (p.absolute here) :=
    funext fun k => Path.isWithin_of_writtenOut h k
  unfold removeDirectory
  rw [hwithin]

lemma removeDirectory_of_not_occupied (h : ¬x.Occupied p) : x.removeDirectory p = (0,x) := by
  have hnone {keys : List Path} (hkeys : ∀ k ∈ keys, k ∈ x.snapshot.documents.keys ∨
      k ∈ x.snapshot.libraries.keys) : keys.filter (·.isWithin p) = [] :=
    List.filter_eq_nil_iff.mpr fun k hk hwithin => h ⟨k,hwithin,hkeys k hk⟩
  unfold removeDirectory
  rw [hnone fun k => .inl,hnone fun k => .inr]
  rfl

/-- Nothing that is stored is found below a directory that is not written out. -/
lemma not_occupied_of_detour (hhere : here.IsWorkingDirectory) (hplaced : x.Placed here)
    (hhoused : x.Housed here) (h : ¬p.WrittenOut here) : ¬x.Occupied p := by
  rintro ⟨k,hwithin,hk⟩
  exact h (Path.writtenOut_of_isWithin hhere (placed_of_mem_keys hplaced hhoused hk) hwithin)

lemma get?_removeLibraries (hhoused : x.Housed here) {directories : List Path}
    (hplaced : ∀ k ∈ directories, k.absolute here = k)
    (hk : k ∈ directories ∨ x.snapshot.libraries.get? k = none) :
    (directories.foldl removeLibrary x).snapshot.libraries.get? k = none := by
  induction directories generalizing x with
  | nil => exact hk.resolve_left List.not_mem_nil
  | cons directory rest ih =>
    refine ih (hhoused.removeLibrary directory _) (fun k hk => hplaced k (List.mem_cons_of_mem _ hk)) ?_
    have hself : x.snapshot.place directory = directory := by
      rw [Snapshot.place,hhoused.workingDirectory,hplaced directory List.mem_cons_self]
    simp only [removeLibrary,Snapshot.removeLibrary,hself,FiniteMap.get?_erase]
    by_cases hfirst : k = directory
    · exact .inr (if_pos hfirst)
    · rw [if_neg hfirst]
      exact hk.imp_left fun h => (List.mem_cons.mp h).resolve_left hfirst

/-- What is below a directory that holds something is counted or gone. -/
lemma removeDirectory_of_occupied (hhoused : x.Housed here) (h : x.Occupied p) :
    (x.removeDirectory p).1 ≠ 0 ∨ (x.removeDirectory p).2.snapshot ≠ x.snapshot := by
  obtain ⟨k,hwithin,hk | hk⟩ := h
  · refine .inl fun hcount => ?_
    have hnone := List.length_eq_zero_iff.mp hcount
    exact List.not_mem_nil (hnone ▸ List.mem_filter.mpr ⟨hk,hwithin⟩)
  · refine .inr fun hsame => ?_
    have hgone : (x.removeDirectory p).2.snapshot.libraries.get? k = none := by
      refine get?_removeLibraries (hhoused.removeFiles _) (fun l hl => ?_)
        (.inl (List.mem_filter.mpr ⟨hk,hwithin⟩))
      exact hhoused.libraries l (FiniteMap.mem_keys_iff.mp (List.mem_filter.mp hl).1)
    rw [hsame] at hgone
    have hsome := FiniteMap.mem_keys_iff.mp hk
    rw [hgone] at hsome
    cases hsome

/-- What emptying a directory answers, and what is stored after it. -/
def emptied (x : Project) (directory : Path) : Nat × Snapshot :=
  ((x.removeDirectory directory).1,(x.removeDirectory directory).2.snapshot)

/-- A directory that is not written out leaves all as it is. -/
lemma emptied_eq_iff (hhere : here.IsWorkingDirectory) (hplaced : x.Placed here) (hhoused : x.Housed here)
    (hq : ¬q.WrittenOut here) : x.emptied p = x.emptied q ↔ ¬x.Occupied p := by
  have hnothing := removeDirectory_of_not_occupied (not_occupied_of_detour hhere hplaced hhoused hq)
  constructor
  · intro h hoccupied
    rw [emptied,emptied,hnothing] at h
    obtain ⟨hcount,hsnapshot⟩ := Prod.mk.inj h
    exact (removeDirectory_of_occupied hhoused hoccupied).elim (absurd hcount) (absurd hsnapshot)
  · intro h
    rw [emptied,emptied,hnothing,removeDirectory_of_not_occupied h]

lemma occupied_of_writtenOut (h : p.WrittenOut here) : x.Occupied (p.absolute here) ↔ x.Occupied p := by
  simp only [Occupied,Path.isWithin_of_writtenOut h]

lemma placed_new {s : FileSystem} (h : s.workingDirectory = here) (root : Path) (config : Config) :
    (new s root config).Placed here ∧ (new s root config).Housed here :=
  ⟨⟨h,fun _ _ hd => by cases hd⟩,⟨h,fun _ hk => by cases hk⟩⟩

/-- Two spellings of one path find the same, and take out the same. Only where all below a directory is taken
out does the spelling count: the two do the same exactly if both or none of them are written out, or nothing
is stored there. -/
theorem spelling_matters_iff (hhere : here.IsWorkingDirectory) (h : p.absolute here = q.absolute here) :
    (∀ s : Snapshot, s.workingDirectory = here → s.document? p = s.document? q ∧
      s.documentsIn p = s.documentsIn q ∧ s.library? p = s.library? q ∧ s.remove p = s.remove q ∧
      s.removeLibrary p = s.removeLibrary q) ∧
    (here.isAbsolute → ∀ r : Path, r.WrittenOut here ↔
      r.components = [] ∨ r.isAbsolute ∧ .parent ∉ r.components) ∧
    ∀ (s : FileSystem) (root : Path) (config : Config) (ops : List (Operation here)),
      s.workingDirectory = here →
      ((new s root config).performAll ops).removeFile p = ((new s root config).performAll ops).removeFile q ∧
      (((new s root config).performAll ops).emptied p = ((new s root config).performAll ops).emptied q ↔
        ((p.WrittenOut here ↔ q.WrittenOut here) ∨
          ¬((new s root config).performAll ops).Occupied (p.absolute here))) := by
  refine ⟨fun s hs => Snapshot.congr_place (by rw [Snapshot.place,Snapshot.place,hs,h]),
    fun hroot _ => Path.writtenOut_iff hroot,fun s root config ops hs => ?_⟩
  obtain ⟨hplaced,hhoused⟩ := placed_new hs root config
  replace hplaced := hplaced.performAll hhere ops
  replace hhoused := hhoused.performAll hhere ops
  generalize (new s root config).performAll ops = x at hplaced hhoused
  have hplace : x.snapshot.place p = x.snapshot.place q := by
    rw [Snapshot.place,Snapshot.place,hplaced.workingDirectory,h]
  obtain ⟨-,-,-,hremove,-⟩ := Snapshot.congr_place hplace
  refine ⟨by rw [removeFile,hremove,removeFile],?_⟩
  by_cases hp : p.WrittenOut here <;> by_cases hq : q.WrittenOut here
  · have hsame : x.emptied p = x.emptied q := by
      rw [emptied,emptied,removeDirectory_of_writtenOut hp,removeDirectory_of_writtenOut hq,h]
    simp [hp,hq,hsame]
  · rw [emptied_eq_iff hhere hplaced hhoused hq,occupied_of_writtenOut hp]
    simp [hp,hq]
  · rw [eq_comm,emptied_eq_iff hhere hplaced hhoused hp,h,occupied_of_writtenOut hq]
    simp [hp,hq]
  · have hnone := not_occupied_of_detour hhere hplaced hhoused hp
    have hnone' := not_occupied_of_detour hhere hplaced hhoused hq
    have hsame : x.emptied p = x.emptied q := by
      rw [emptied,emptied,removeDirectory_of_not_occupied hnone,removeDirectory_of_not_occupied hnone']
    simp [hp,hq,hsame]

/-- A document in a directory that is spelled with a dot and a slash too many. -/
theorem spelling_matters_not_for_dots : ∃ (p q : Path) (ops : List (Operation ⟨"/"⟩)), p ≠ q ∧
    p.absolute ⟨"/"⟩ = q.absolute ⟨"/"⟩ ∧
    (((new {} ⟨"/w"⟩ {}).performAll ops).emptied p).1 = 1 ∧
    ((new {} ⟨"/w"⟩ {}).performAll ops).emptied p = ((new {} ⟨"/w"⟩ {}).performAll ops).emptied q := by
  have hsame : Path.absolute ⟨"/w/ui"⟩ ⟨"/"⟩ = Path.absolute ⟨"/w/.//ui"⟩ ⟨"/"⟩ := by decide +kernel
  have hwritten : Path.WrittenOut ⟨"/w/ui"⟩ ⟨"/"⟩ ∧ Path.WrittenOut ⟨"/w/.//ui"⟩ ⟨"/"⟩ := by decide +kernel
  let ops : List (Operation ⟨"/"⟩) :=
    [.updateSource { file := ⟨"/w/ui/A.qml"⟩, source := "A\x7b\x7d" }]
  obtain ⟨-,-,hstored⟩ := spelling_matters_iff (.inl (by decide)) hsame
  refine ⟨⟨"/w/ui"⟩,⟨"/w/.//ui"⟩,ops,by decide,hsame,by decide +kernel,?_⟩
  exact (hstored {} ⟨"/w"⟩ {} ops rfl).2.mpr (.inl ⟨fun _ => hwritten.2,fun _ => hwritten.1⟩)

/-- A document in a directory that is spelled with a step up. It stays. -/
theorem spelling_matters_for_detours : ∃ (p q : Path) (ops : List (Operation ⟨"/"⟩)),
    p.absolute ⟨"/"⟩ = q.absolute ⟨"/"⟩ ∧
    (((new {} ⟨"/w"⟩ {}).performAll ops).emptied p).1 = 1 ∧
    (((new {} ⟨"/w"⟩ {}).performAll ops).emptied q).1 = 0 ∧
    ((((new {} ⟨"/w"⟩ {}).performAll ops).emptied q).2.document? ⟨"/w/ui/A.qml"⟩).isSome := by
  let ops : List (Operation ⟨"/"⟩) :=
    [.updateSource { file := ⟨"/w/ui/A.qml"⟩, source := "A\x7b\x7d" }]
  exact ⟨⟨"/w/ui"⟩,⟨"/w/ui/../ui"⟩,ops,by decide +kernel,by decide +kernel,by decide +kernel,by decide +kernel⟩

end Project

end QmlCodeModel
