import QmlCodeModel.Proofs.Path.Plain
import QmlCodeModel.Proofs.Project.Documents

/-! Who depends on a document. What a document imports by its path is named by that path as it is written behind
the directory, and a document is named by its clean path. So an importer is found only if there are no detours in
what it has written. -/
namespace QmlCodeModel

namespace Document

variable {here : Path} {d : Document} {i : Import}

/-- Documents as they are made. -/
inductive Made (here : Path) : Document → Prop
  | new (file : Path) (dialect : Dialect) : Made here (.new here file dialect)
  | setSource {d : Document} (source : String) : Made here d → Made here (d.setSource source)
  | readAs {d : Document} (form : SourceForm) : Made here d → Made here (d.readAs form)
  | revise {d : Document} (revision : Nat) : Made here d → Made here { d with revision }

/-- A document lies in the directory of its file, and what has been read was read there. -/
structure Located (here : Path) (d : Document) : Prop where
  file : ∃ file : Path, d.file = file.absolute here
  directory : d.directory = d.file.parent?.getD ⟨""⟩
  reading : ∀ r, d.reading = some r → ∃ form, Reading.of? form d.directory d.source = some r

lemma Made.located (h : d.Made here) : d.Located here := by
  induction h with
  | new file dialect =>
    refine ⟨⟨file,rfl⟩,?_,fun r hr => by cases hr⟩
    unfold Document.new
    dsimp only
  | setSource source _ ih => exact ⟨ih.file,ih.directory,fun r hr => by cases hr⟩
  | readAs form _ ih => exact ⟨ih.file,ih.directory,fun r hr => ⟨form,hr⟩⟩
  | revise revision _ ih => exact ⟨ih.file,ih.directory,ih.reading⟩

lemma Made.placed (h : d.Made here) : ∃ file dialect, d.file = (Document.new here file dialect).file := by
  obtain ⟨file,hfile⟩ := h.located.file
  exact ⟨file,d.dialect,hfile⟩

/-- The path that an import in quotes is resolved to. -/
def resolve (d : Document) (i : Import) : Path := d.directory.join ⟨i.name⟩

/-- A module is named as it is, and all else by the path that it is resolved to. -/
lemma Located.target (h : d.Located here) (hi : i ∈ d.imports) :
    i.target = if i.kind = .library then i.name else (d.resolve i).text := by
  unfold imports symbols? at hi
  cases hr : d.reading with
  | none =>
    rw [hr] at hi
    cases hi
  | some r =>
    rw [hr] at hi
    obtain ⟨form,hof⟩ := h.reading r hr
    obtain ⟨p,-,hp⟩ := Option.bind_eq_some_iff.mp hof
    cases hp
    obtain ⟨directive,-,hdirective⟩ := List.mem_filterMap.mp hi
    cases directive with
    | libraryPragma => cases hdirective
    | importModule uri version qualifier place =>
      cases hdirective
      rfl
    | importFile path qualifier place =>
      cases hdirective
      have hpath : ((if d.directory.isEmpty then none else some d.directory).map (·.join ⟨path⟩)).getD ⟨path⟩ =
          d.directory.join ⟨path⟩ := by
        split
        · rename_i hempty
          exact (Path.join_of_isEmpty hempty _).symm
        · rfl
      unfold Import.target resolve
      rw [hpath]
      cases ".js".toList.isSuffixOf path.toList <;> rfl

end Document

namespace Snapshot

variable {here : Path} {a b : Document} {i : Import}

/-- An importer is found under the paths that its imports are resolved to, as they stand. -/
lemma mem_dependentsOf_iff (hhere : here.IsWorkingDirectory) (steps : List (Step here))
    (ha : (after here steps).Stores a) (hmade : a.Made here) (b : Document) :
    a.importId ∈ (after here steps).imports.dependentsOf b.importId ↔
      ∃ i ∈ a.imports, if i.kind = .library then i.name = b.importId else a.resolve i = b.file := by
  obtain ⟨hstep,-⟩ := inStep_after hhere steps
  rw [ImportGraph.mem_dependentsOf,hstep.mem_targets]
  have htarget (i : Import) (hi : i ∈ a.imports) : i.target = b.importId ↔
      if i.kind = .library then i.name = b.importId else a.resolve i = b.file := by
    rw [hmade.located.target hi]
    split
    · exact Iff.rfl
    · exact (b.file_iff _).symm
  constructor
  · rintro ⟨d,hd,hid,i,hi,hi'⟩
    have hstored := hstep.get?_iff.mpr ⟨hd,hid⟩
    obtain rfl := Option.some.inj (hstored.symm.trans (hstep.get?_iff.mpr ⟨ha,rfl⟩))
    exact ⟨i,hi,(htarget i hi).mp hi'⟩
  · rintro ⟨i,hi,hi'⟩
    exact ⟨a,ha,rfl,i,hi,(htarget i hi).mpr hi'⟩

/-- A path that names a document is resolved to its file, as it stands, if there are no detours in it. -/
lemma resolve_iff_plain (hmade : a.Made here) (habsolute : a.file.isAbsolute) (hroot : a.file ≠ ⟨"/"⟩)
    (hfile : b.file ≠ ⟨"/"⟩) (hnames : (a.resolve i).absolute here = b.file) :
    a.resolve i = b.file ↔ Path.Plain ⟨i.name⟩ := by
  have hlocated := hmade.located
  obtain ⟨path,hpath⟩ := hlocated.file
  have hclean : a.file.clean = a.file := by rw [hpath,Path.clean_absolute]
  obtain ⟨above,hparent,habove,hcleaned⟩ := Path.clean_parent? habsolute hclean hroot
  have hdirectory : a.directory = above := by rw [hlocated.directory,hparent]; rfl
  have hresolved : (a.resolve i).isAbsolute := by
    rw [Document.resolve,hdirectory]
    exact Path.isAbsolute_join habove _
  rw [Path.absolute_of_isAbsolute hresolved] at hnames
  rw [← Path.plain_join habove hcleaned,← hdirectory,← hnames]
  refine eq_comm.trans (Path.clean_iff_plain hresolved ?_)
  rwa [hnames]

/-- A document is found among those that depend on another one exactly if one of its imports is resolved to the
file of the other, as it stands; and a path that names the other one is resolved so exactly if it is written
without detours. -/
theorem dependents_by_written_path (hhere : here.IsWorkingDirectory) (steps : List (Step here))
    (ha : (after here steps).Stores a) (hmade : a.Made here) (b : Document) :
    (a.importId ∈ (after here steps).imports.dependentsOf b.importId ↔
      ∃ i ∈ a.imports, if i.kind = .library then i.name = b.importId else a.resolve i = b.file) ∧
    (a.file.isAbsolute → a.file ≠ ⟨"/"⟩ → b.file ≠ ⟨"/"⟩ → ∀ i ∈ a.imports, i.kind ≠ .library →
      (a.resolve i).absolute here = b.file → (a.resolve i = b.file ↔ Path.Plain ⟨i.name⟩)) := by
  refine ⟨mem_dependentsOf_iff hhere steps ha hmade b,fun habsolute hroot hfile i _ _ hnames => ?_⟩
  exact resolve_iff_plain hmade habsolute hroot hfile hnames

/-- Of two documents of different files, both are stored. -/
lemma stores_both (hhere : here.IsWorkingDirectory) (ha : a.Made here) (hb : b.Made here)
    (hne : b.file ≠ a.file) :
    (after here [.insert b hb.placed true,.insert a ha.placed true]).Stores a ∧
      (after here [.insert b hb.placed true,.insert a ha.placed true]).Stores b := by
  have hinsert (s : Snapshot) (hs : s.workingDirectory = here) {d : Document} (hd : d.Made here) (k : Path) :
      (s.insert d true).2.documents.get? k =
        if k = d.file ∧ accepts true d then some d else s.documents.get? k := by
    refine documents_insert ?_ true k
    obtain ⟨file,hfile⟩ := hd.located.file
    rw [place,hs,hfile]
    exact Path.absolute_absolute hhere
  have hafter := hinsert ((empty here).insert b true).2 (workingDirectory_insert _ _ _) ha
  refine ⟨⟨a.file,(hafter _).trans (if_pos ⟨rfl,rfl⟩)⟩,⟨b.file,(hafter _).trans ?_⟩⟩
  rw [if_neg fun h => hne h.1,hinsert _ rfl hb,if_pos ⟨rfl,rfl⟩]

/-- A script, and a document that imports it. -/
def script : Document := .ofSource ⟨"/"⟩ ⟨"/p/lib.js"⟩ .javascript ""

def importing (file : Path) (written : String) : Document :=
  .ofSource ⟨"/"⟩ file .qml ("import\"" ++ written ++ "\"as L\nA\x7b\x7d")

lemma made_script : script.Made ⟨"/"⟩ := .readAs _ (.setSource _ (.new ⟨"/p/lib.js"⟩ .javascript))

lemma made_importing (file : Path) (written : String) : (importing file written).Made ⟨"/"⟩ :=
  .readAs _ (.setSource _ (.new file .qml))

lemma imports_importing (file : Path) (written : String)
    (h : (importing file written).imports.map (fun i => (i.kind,i.name)) = [(.file,written)]) :
    ∃ i, (importing file written).imports = [i] ∧ i.kind = .file ∧ i.name = written := by
  obtain ⟨i,hi,hentry⟩ := List.map_eq_singleton_iff.mp h
  obtain ⟨hkind,hname⟩ := Prod.mk.inj hentry
  exact ⟨i,hi,hkind,hname⟩

/-- A script beside the document. -/
theorem dependents_of_script_beside : ∃ (steps : List (Step ⟨"/"⟩)) (a b : Document) (i : Import),
    (after ⟨"/"⟩ steps).Stores a ∧ (after ⟨"/"⟩ steps).Stores b ∧ i ∈ a.imports ∧ i.name = "lib.js" ∧
    a.importId ∈ (after ⟨"/"⟩ steps).imports.dependentsOf b.importId := by
  obtain ⟨ha,hb⟩ := stores_both (.inl (by decide)) (made_importing ⟨"/p/A.qml"⟩ "lib.js") made_script
    (by decide +kernel)
  obtain ⟨i,hone,hkind,hname⟩ :=
    imports_importing ⟨"/p/A.qml"⟩ "lib.js" (by decide +kernel)
  have hi : i ∈ (importing ⟨"/p/A.qml"⟩ "lib.js").imports := hone ▸ List.mem_singleton_self i
  obtain ⟨hiff,-⟩ := dependents_by_written_path (.inl (by decide)) _ ha (made_importing _ _) script
  refine ⟨_,_,_,i,ha,hb,hi,hname,hiff.mpr ⟨i,hi,?_⟩⟩
  rw [if_neg (by rw [hkind]; decide),Document.resolve,hname]
  decide +kernel

/-- A script in the directory above. -/
theorem dependents_lack_importer_from_below : ∃ (steps : List (Step ⟨"/"⟩)) (a b : Document) (i : Import),
    a.Made ⟨"/"⟩ ∧ (after ⟨"/"⟩ steps).Stores a ∧ (after ⟨"/"⟩ steps).Stores b ∧ i ∈ a.imports ∧
    i.kind = .file ∧ i.name = "../lib.js" ∧ (a.resolve i).absolute ⟨"/"⟩ = b.file ∧
    a.importId ∉ (after ⟨"/"⟩ steps).imports.dependentsOf b.importId := by
  have hmade := made_importing ⟨"/p/ui/A.qml"⟩ "../lib.js"
  obtain ⟨ha,hb⟩ := stores_both (.inl (by decide)) hmade made_script (by decide +kernel)
  obtain ⟨i,hone,hkind,hname⟩ :=
    imports_importing ⟨"/p/ui/A.qml"⟩ "../lib.js" (by decide +kernel)
  have hi : i ∈ (importing ⟨"/p/ui/A.qml"⟩ "../lib.js").imports := hone ▸ List.mem_singleton_self i
  refine ⟨_,_,_,i,hmade,ha,hb,hi,hkind,hname,?_,?_⟩
  · rw [Document.resolve,hname]
    decide +kernel
  · rw [mem_dependentsOf_iff (.inl (by decide)) _ ha hmade script,hone]
    rintro ⟨j,hj,hresolved⟩
    obtain rfl := List.mem_singleton.mp hj
    rw [if_neg (by rw [hkind]; decide),Document.resolve,hname] at hresolved
    revert hresolved
    decide +kernel

end Snapshot
end QmlCodeModel
