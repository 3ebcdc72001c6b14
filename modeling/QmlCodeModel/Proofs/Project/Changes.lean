import QmlCodeModel.Proofs.Project.Documents

/-! A project that takes notice of every change, compared with one that is indexed anew. The new one has
exactly those documents of the other whose files can still be read. Both are the same when no file of the
project is overwritten with bytes that cannot be read, and no directory is taken out under a name that is
taken for that of a file. -/
namespace QmlCodeModel

open Location FileSystem

/-- A change of one file or directory. -/
inductive FileChange
  | write (l : Location) (bytes : ByteArray) (modified : Int)
  | remove (l : Location)

namespace FileChange

def location : FileChange → Location
  | write l _ _ => l
  | remove l => l

def apply (s : FileSystem) : FileChange → FileSystem
  | write l bytes modified => s.write (pathOf l) bytes modified
  | remove l => s.remove (pathOf l)

/-- How the change is reported. -/
def action (s : FileSystem) : FileChange → FileAction
  | write l _ _ => if s.contains (pathOf l) then .modify else .create
  | remove _ => .remove

/-- The change is about something in a directory, under a name that it can have. -/
structure Inside (root : Location) (c : FileChange) : Prop where
  below : root <:+ c.location
  other : c.location ≠ root
  named : c.location.Named

instance (root : Location) : DecidablePred (Inside root) := fun c =>
  decidable_of_iff (root <:+ c.location ∧ c.location ≠ root ∧ c.location.Named)
    ⟨fun ⟨below,other,named⟩ => ⟨below,other,named⟩,fun h => ⟨h.below,h.other,h.named⟩⟩

/-- What a file holds after the change. -/
def contentAfter (before : Option ByteArray) (k : Location) : FileChange → Option ByteArray
  | write l bytes _ => if k = l then some bytes else before
  | remove l => if l <:+ k then none else before

variable {s : FileSystem} {root k : Location} {c : FileChange}

/-- Elsewhere a file is the same, unless it has been taken out with a directory. -/
lemma contentAfter_elsewhere (h : k ≠ c.location) (before : Option ByteArray) :
    c.contentAfter before k = before ∨
      (∃ l, c = .remove l ∧ l <:+ k) ∧ c.contentAfter before k = none := by
  cases c with
  | write l bytes modified => exact .inl (if_neg h)
  | remove l =>
    by_cases hl : l <:+ k
    · exact .inr ⟨⟨l,rfl,hl⟩,if_pos hl⟩
    · exact .inl (if_neg hl)

lemma Inside.ne_nil (h : c.Inside root) : c.location ≠ [] := by
  intro hnil
  have hroot := h.below
  rw [hnil,List.suffix_nil] at hroot
  exact h.other (hnil.trans hroot.symm)

/-- A change is made, or nothing changes. -/
lemma apply_cases (h : c.Inside root) (hnamed : s.tree.Named) : c.apply s = s ∨
    ∃ t : FileTree, c.apply s = { s with tree := t } ∧ t.Named ∧
      ∀ k, t.content? k = c.contentAfter (s.tree.content? k) k := by
  have hne := h.ne_nil
  cases c with
  | write l bytes modified =>
    cases l with
    | nil => exact absurd rfl hne
    | cons name around => exact write_cases h.named hnamed bytes modified
  | remove l => exact (remove_cases h.named hne hnamed).2

lemma named_apply (h : c.Inside root) (hnamed : s.tree.Named) : (c.apply s).tree.Named := by
  obtain hsame | ⟨t,hs,ht,-⟩ := apply_cases h hnamed
  · rw [hsame]
    exact hnamed
  · rw [hs]
    exact ht

/-- What was taken out is not there any more. -/
lemma gone_remove {l : Location} (h : (remove l).Inside root) (hnamed : s.tree.Named) :
    ¬((remove l).apply s).contains (pathOf l) := (remove_cases h.named h.ne_nil hnamed).1

end FileChange

namespace Project

variable {p q : Project} {s : FileSystem} {root l k : Location} {c : FileChange} {d : Document}

lemma content_of_load (h : Named k) (hload : p.load s (pathOf k) = .ok d) :
    Reachable k ∧ (s.tree.content? k).isSome := by
  obtain ⟨hreach,bytes,hbytes,-⟩ := (load_eq_ok h).mp hload
  exact ⟨hreach,by simp [hbytes]⟩

/-- Elsewhere, what can be read after a change could be read before. -/
lemma load_before (h : c.Inside root) (hs : s.tree.Named) (hk : Named k) (hne : k ≠ c.location)
    (hload : p.load (c.apply s) (pathOf k) = .ok d) : p.load s (pathOf k) = .ok d := by
  obtain hsame | ⟨t,happly,-,hcontent⟩ := FileChange.apply_cases h hs
  · rw [hsame] at hload
    exact hload
  · rw [happly] at hload
    obtain ⟨hreach,bytes,hbytes,hdocument⟩ := (load_eq_ok hk).mp hload
    rw [hcontent] at hbytes
    obtain hsame | ⟨-,hnone⟩ := FileChange.contentAfter_elsewhere hne (s.tree.content? k)
    · rw [hsame] at hbytes
      exact (load_eq_ok hk).mpr ⟨hreach,bytes,hbytes,hdocument⟩
    · rw [hnone] at hbytes
      cases hbytes

/-- Elsewhere, what could be read before can be read after, unless it has been taken out. -/
lemma load_after (h : c.Inside root) (hs : s.tree.Named) (hk : Named k) (hne : k ≠ c.location)
    (hload : p.load s (pathOf k) = .ok d) :
    p.load (c.apply s) (pathOf k) = .ok d ∨ ∃ l, c = .remove l ∧ l <:+ k := by
  obtain hsame | ⟨t,happly,-,hcontent⟩ := FileChange.apply_cases h hs
  · rw [hsame]
    exact .inl hload
  · obtain ⟨hreach,bytes,hbytes,hdocument⟩ := (load_eq_ok hk).mp hload
    obtain hsame | ⟨hremove,-⟩ := FileChange.contentAfter_elsewhere hne (s.tree.content? k)
    · rw [happly]
      refine .inl ((load_eq_ok hk).mpr ⟨hreach,bytes,?_,hdocument⟩)
      exact (hcontent k).trans (hsame.trans hbytes)
    · exact .inr hremove

/-- What lies below something that cannot be found cannot be read. -/
lemma load_of_gone (hk : Named k) (hl : l <:+ k) (hgone : ¬s.contains (pathOf l)) :
    p.load s (pathOf k) ≠ .ok d := by
  intro hload
  obtain ⟨hreach,hcontent⟩ := content_of_load hk hload
  apply hgone
  rw [contains_iff (hk.of_suffix hl)]
  exact ⟨hreach.of_suffix hl,FileTree.entry?_above hl hcontent⟩

/-- A project in a directory, indexed. -/
def indexed (s : FileSystem) (root : Location) (config : Config) : Project :=
  ((new s (pathOf root) config).index s).2

/-- Files change, and the project takes notice. -/
def follow (state : FileSystem × Project) (c : FileChange) : FileSystem × Project :=
  let after := c.apply state.1
  (after,(state.2.notice after (c.action state.1) [pathOf c.location]).2)

/-- The documents of a project in a directory are those of its files. Every file that can be read has the
document that is made of it, if that is accepted. -/
structure Tracks (q : Project) (root : Location) (s : FileSystem) (p : Project) : Prop where
  settled : Settled q p
  keys : ∀ k d, p.documentAt? k = some d → ∃ l, k = pathOf l ∧ Named l ∧ root <:+ l ∧ q.admits k
  current : ∀ l d, Named l → root <:+ l → q.admits (pathOf l) → q.load s (pathOf l) = .ok d →
    p.documentAt? (pathOf l) =
      if Snapshot.accepts q.config.indexing.allowInvalid d then some d else none

/-- No document is kept of a file that cannot be read. -/
def Readable (q : Project) (s : FileSystem) (p : Project) : Prop :=
  ∀ k d, p.documentAt? k = some d → ∃ e, q.load s k = .ok e

/-- A file of the project is written with bytes that can be read; what is taken out has no name that is
taken for that of another kind of file. -/
def Heeds (q : Project) (s : FileSystem) : FileChange → Prop
  | .write l bytes _ => q.admits (pathOf l) →
      bytes.size ≤ q.config.indexing.maxFileSize ∧ (String.fromUTF8? bytes).isSome
  | .remove l => l.head? ≠ some Qmldir.fileName ∧ (s.tree.isDirectory l → q.admits (pathOf l) = false)

/-- All changes of a run do so. -/
def HeedsAll (q : Project) : FileSystem → List FileChange → Prop
  | _, [] => True
  | s, c :: rest => Heeds q s c ∧ HeedsAll q (c.apply s) rest

lemma Settled.admits (h : Settled q p) (k : Path) : p.admits k = q.admits k := by
  unfold Project.admits
  rw [h.root,h.config]

lemma dialect_of_qmldir {around : Location} (h : Named (Qmldir.fileName :: around)) :
    Dialect.ofPath (pathOf (Qmldir.fileName :: around)) = .unknown := by
  unfold Dialect.ofPath Path.extension?
  rw [fileName?_pathOf h]
  decide

lemma load_of_unknown {file : Path} (h : Dialect.ofPath file = .unknown) : q.load s file ≠ .ok d := by
  unfold load
  rw [if_pos h]
  exact fun h => (by cases h)

/-- What is called like the description of a library is never read as a document. -/
lemma load_of_qmldir (hl : Named l) (h : (pathOf l).fileName? = some Qmldir.fileName) :
    l.head? = some Qmldir.fileName ∧ ∀ s d, q.load s (pathOf l) ≠ .ok d := by
  cases l with
  | nil =>
    unfold Path.fileName? at h
    rw [components_pathOf hl] at h
    cases h
  | cons name around =>
    rw [fileName?_pathOf hl] at h
    cases h
    exact ⟨rfl,fun s d => load_of_unknown (dialect_of_qmldir hl)⟩

namespace Tracks

lemma placed (h : Tracks q root s p) (k : Path) (hk : (p.documentAt? k).isSome) : p.snapshot.place k = k := by
  obtain ⟨d,hd⟩ := Option.isSome_iff_exists.mp hk
  obtain ⟨l,rfl,hl,-,-⟩ := h.keys k d hd
  exact absolute_pathOf hl _

/-- What taking notice of a change can do. -/
lemma follow_cases (h : Tracks q root s p) (hc : c.Inside root) : Settled p (follow (s,p) c).2 ∧
    Notices p (c.apply s) (pathOf c.location) (follow (s,p) c).2 := by
  have hnotice : (follow (s,p) c).2 = (p.noticePath (c.apply s) (pathOf c.location)).2 := by
    unfold follow notice
    dsimp only
    rw [if_neg]
    · rfl
    · cases c with
      | write l bytes modified =>
        unfold FileChange.action
        dsimp only
        split <;> simp
      | remove l => exact fun h => (by cases h)
  rw [hnotice]
  exact notices_noticePath hc.named h.placed

/-- No document is new after the change, and none has gone whose file can be read. -/
lemma keep {p' : Project} (h : Tracks q root s p) (hs : s.tree.Named) (hc : c.Inside root)
    (hsettled : Settled p p') (hold : ∀ k d, p'.documentAt? k = some d → p.documentAt? k = some d)
    (hkept : ∀ l d, Named l → q.admits (pathOf l) → q.load (c.apply s) (pathOf l) = .ok d →
      l ≠ c.location ∧ p'.documentAt? (pathOf l) = p.documentAt? (pathOf l)) :
    Tracks q root (c.apply s) p' where
  settled := h.settled.trans hsettled
  keys k d hd := h.keys k d (hold k d hd)
  current l d hl hroot hadmitted hloaded := by
    obtain ⟨hne,hsame⟩ := hkept l d hl hadmitted hloaded
    rw [hsame]
    exact h.current l d hl hroot hadmitted (load_before hc hs hl hne hloaded)

/-- All documents stay after a change of what is no file of the project that can be read. -/
lemma keep_all {p' : Project} (h : Tracks q root s p) (hs : s.tree.Named) (hc : c.Inside root)
    (hsettled : Settled p p') (documents : ∀ k, p'.documentAt? k = p.documentAt? k)
    (hnone : ∀ d, q.admits (pathOf c.location) → q.load (c.apply s) (pathOf c.location) ≠ .ok d) :
    Tracks q root (c.apply s) p' := by
  apply h.keep hs hc hsettled
  · intro k d hd
    rwa [documents] at hd
  · intro l d hl hadmitted hloaded
    refine ⟨?_,documents _⟩
    rintro rfl
    exact hnone d hadmitted hloaded

/-- One change that is noticed keeps track of all files. -/
theorem follow (h : Tracks q root s p) (hs : s.tree.Named) (hc : c.Inside root) :
    Tracks q root (c.apply s) (Project.follow (s,p) c).2 := by
  obtain ⟨hsettled,hnotices⟩ := h.follow_cases hc
  have hadmits := h.settled.admits
  have hload := load_congr h.settled.config (c.apply s)
  cases hnotices with
  | library name documents =>
    exact h.keep_all hs hc hsettled documents fun d _ => (load_of_qmldir hc.named name).2 _ d
  | outside alien there documents =>
    apply h.keep_all hs hc hsettled documents
    intro d hadmitted
    rw [hadmits,hadmitted] at alien
    cases alien
  | directory alien gone documents =>
    apply h.keep hs hc hsettled
    · intro k d hd
      rw [documents] at hd
      split at hd
      · cases hd
      · exact hd
    · intro l d hl hadmitted hloaded
      refine ⟨?_,?_⟩
      · rintro rfl
        rw [hadmits,hadmitted] at alien
        cases alien
      · rw [documents,if_neg]
        rw [isWithin_pathOf hc.named hl]
        intro hbelow
        exact load_of_gone hl hbelow (by simp [gone]) hloaded
  | removed admitted gone documents =>
    apply h.keep hs hc hsettled
    · intro k d hd
      rw [documents] at hd
      split at hd
      · cases hd
      · exact hd
    · intro l d hl hadmitted hloaded
      have hne : l ≠ c.location := by
        rintro rfl
        rw [(isFile_iff hl).mpr (content_of_load hl hloaded)] at gone
        cases gone
      refine ⟨hne,?_⟩
      rw [documents,if_neg]
      exact fun heq => hne (pathOf_injective hl hc.named heq)
  | @updated e admitted there load documents =>
    rw [hload] at load
    refine ⟨h.settled.trans hsettled,?_,?_⟩
    · intro k d hd
      rw [documents] at hd
      split at hd
      · rename_i hk
        rw [hk,← hadmits]
        exact ⟨c.location,rfl,hc.named,hc.below,admitted⟩
      · exact h.keys k d hd
    · intro l d hl hroot hadmitted hloaded
      rw [documents,h.settled.config]
      by_cases heq : l = c.location
      · subst heq
        rw [hloaded] at load
        rw [if_pos rfl,Except.ok.inj load]
      · rw [if_neg fun hpath => heq (pathOf_injective hl hc.named hpath)]
        exact h.current l d hl hroot hadmitted (load_before hc hs hl heq hloaded)
  | unreadable admitted there load documents =>
    apply h.keep_all hs hc hsettled documents
    intro d _ hloaded
    rw [hload,hloaded] at load
    cases load

/-- What is elsewhere and has a document can still be read after a change that heeds the rules. -/
lemma readable_elsewhere (h : Tracks q root s p) (hreadable : Readable q s p) (hs : s.tree.Named)
    (hc : c.Inside root) {k : Path} {d : Document} (hd : p.documentAt? k = some d)
    (hne : k ≠ pathOf c.location)
    (habove : ∀ l, c = .remove l → k.isWithin (pathOf l) → s.tree.isDirectory l → False) :
    ∃ e, q.load (c.apply s) k = .ok e := by
  obtain ⟨l,rfl,hl,-,-⟩ := h.keys k d hd
  have hother : l ≠ c.location := by
    rintro rfl
    exact hne rfl
  obtain ⟨e,he⟩ := hreadable _ d hd
  obtain hafter | ⟨m,rfl,hbelow⟩ := load_after hc hs hl hother he
  · exact ⟨e,hafter⟩
  · have hcontent := (content_of_load hl he).2
    obtain ⟨bytes,hbytes⟩ := Option.isSome_iff_exists.mp hcontent
    obtain ⟨modified,hentry⟩ := FileTree.entry?_of_content hbytes
    have hdirectory := FileTree.directory_of_suffix (t := s.tree) hbelow (Ne.symm hother) (by simp [hentry])
    refine absurd ?_ (habove m rfl ((isWithin_pathOf hc.named hl).mpr hbelow))
    simpa [FileTree.isDirectory] using hdirectory

/-- What is written is read, if it can be. -/
lemma load_written {bytes : ByteArray} {modified : Int} (hc : (FileChange.write l bytes modified).Inside root)
    (hs : s.tree.Named) (hbefore : q.load s (pathOf l) = .ok d)
    (hsize : bytes.size ≤ q.config.indexing.maxFileSize) (htext : (String.fromUTF8? bytes).isSome) :
    ∃ e, q.load ((FileChange.write l bytes modified).apply s) (pathOf l) = .ok e := by
  obtain hsame | ⟨t,happly,-,hcontent⟩ := FileChange.apply_cases hc hs
  · rw [hsame]
    exact ⟨d,hbefore⟩
  · obtain ⟨source,hsource⟩ := Option.isSome_iff_exists.mp htext
    obtain ⟨hreach,old,-,hdocument⟩ := (load_eq_ok hc.named).mp hbefore
    have hdialect : Dialect.ofPath (pathOf l) ≠ .unknown := by
      intro hunknown
      unfold documentOf? at hdocument
      rw [FileChange.location,if_pos hunknown] at hdocument
      cases hdocument
    rw [happly]
    refine ⟨.ofSource s.workingDirectory (pathOf l) (Dialect.ofPath (pathOf l)) source,?_⟩
    apply (load_eq_ok hc.named).mpr
    refine ⟨hreach,bytes,(hcontent l).trans (if_pos rfl),?_⟩
    unfold documentOf?
    rw [FileChange.location,if_neg hdialect,if_neg (by omega),hsource]
    rfl

/-- One change that heeds the rules leaves no document behind of a file that cannot be read. -/
theorem readable_follow (h : Tracks q root s p) (hreadable : Readable q s p) (hs : s.tree.Named)
    (hc : c.Inside root) (hheeds : Heeds q s c) : Readable q (c.apply s) (Project.follow (s,p) c).2 := by
  obtain ⟨-,hnotices⟩ := h.follow_cases hc
  have hadmits := h.settled.admits
  have hload := load_congr h.settled.config (c.apply s)
  have hlocated {d : Document} (hd : p.documentAt? (pathOf c.location) = some d) :
      q.admits (pathOf c.location) := by
    obtain ⟨l,-,-,-,hadmitted⟩ := h.keys _ d hd
    exact hadmitted
  have hremoved {l : Location} (heq : c = .remove l) (hthere : (c.apply s).isFile (pathOf c.location)) :
      False := by
    subst heq
    have hgone := FileChange.gone_remove hc hs
    rw [contains_iff (l := l) hc.named] at hgone
    obtain ⟨hreach,hcontent⟩ := (isFile_iff hc.named).mp hthere
    exact hgone ⟨hreach,FileTree.entry?_above List.suffix_rfl hcontent⟩
  intro k d hd
  cases hnotices with
  | library name documents =>
    rw [documents] at hd
    obtain ⟨hhead,hnever⟩ := load_of_qmldir (q := q) hc.named name
    apply h.readable_elsewhere hreadable hs hc hd
    · rintro rfl
      obtain ⟨e,he⟩ := hreadable _ d hd
      exact hnever _ _ he
    · rintro l rfl
      exact absurd hhead hheeds.1
  | outside alien there documents =>
    rw [documents] at hd
    apply h.readable_elsewhere hreadable hs hc hd
    · rintro rfl
      rw [hadmits,hlocated hd] at alien
      cases alien
    · rintro l rfl
      exact absurd there (FileChange.gone_remove hc hs)
  | directory alien gone documents =>
    rw [documents] at hd
    split at hd
    · cases hd
    rename_i hbelow
    apply h.readable_elsewhere hreadable hs hc hd
    · rintro rfl
      rw [hadmits,hlocated hd] at alien
      cases alien
    · rintro l rfl hwithin
      exact absurd hwithin hbelow
  | removed admitted gone documents =>
    rw [documents] at hd
    split at hd
    · cases hd
    rename_i hne
    apply h.readable_elsewhere hreadable hs hc hd hne
    rintro l rfl - hdirectory
    have halien := hheeds.2 hdirectory
    rw [hadmits,FileChange.location,halien] at admitted
    cases admitted
  | @updated e admitted there load documents =>
    rw [documents] at hd
    split at hd
    · rename_i hk
      rw [hk,← hload]
      exact ⟨e,load⟩
    · rename_i hne
      apply h.readable_elsewhere hreadable hs hc hd hne
      rintro l heq
      exact (hremoved heq there).elim
  | unreadable admitted there load documents =>
    rw [documents] at hd
    by_cases hk : k = pathOf c.location
    · subst hk
      cases c with
      | remove l => exact (hremoved rfl there).elim
      | write l bytes modified =>
        obtain ⟨e,he⟩ := hreadable _ d hd
        obtain ⟨hsize,htext⟩ := hheeds ((hadmits _).symm.trans admitted)
        exact load_written hc hs he hsize htext
    · apply h.readable_elsewhere hreadable hs hc hd hk
      rintro l heq
      exact (hremoved heq there).elim

end Tracks

/-! Runs. -/

lemma rootOf_pathOf (h : Named root) (s : FileSystem) : rootOf s (pathOf root) = pathOf root := by
  unfold rootOf canonical?
  simp only [clean_pathOf h,isEmpty_pathOf,Bool.false_eq_true,if_false]
  cases hlocate : s.locate (pathOf root) with
  | error fault => rfl
  | ok l =>
    rw [((locate_eq_ok h).mp hlocate).1]
    rfl

lemma root_new (h : Named root) (s : FileSystem) (config : Config) :
    (new s (pathOf root) config).root = pathOf root := by
  unfold new
  dsimp only
  rw [rootOf_pathOf h s]

/-- A project that has just been indexed keeps track of all files. -/
lemma tracks_index (hp : p.root = pathOf root) (hnone : ∀ k, p.documentAt? k = none) (hroot : Named root)
    (hs : s.tree.Named) : Tracks (p.index s).2 root s (p.index s).2 ∧ Readable (p.index s).2 s (p.index s).2 := by
  have hsettled := settled_index p s
  have hload := load_congr hsettled.config s
  have hfiles (f : Path) (hf : f ∈ p.files s) : ∃ l, f = pathOf l ∧ root <:+ l ∧ Named l := by
    apply pathOf_of_mem_filesBelow hs hroot
    rw [← hp]
    exact (mem_files.mp hf).1
  have hindex := documentAt?_index hnone fun f hf => (hfiles f hf).imp fun l hl => ⟨hl.1,hl.2.2⟩
  refine ⟨⟨.refl _,?_,?_⟩,?_⟩
  · intro k d hd
    obtain ⟨hfile,-,-⟩ := (hindex k d).mp hd
    obtain ⟨l,hk,hbelow,hl⟩ := hfiles k hfile
    exact ⟨l,hk,hl,hbelow,(hsettled.admits k).trans (mem_files.mp hfile).2⟩
  · intro l d hl hbelow hadmitted hloaded
    obtain ⟨hreach,hcontent⟩ := content_of_load hl hloaded
    have hfile : pathOf l ∈ p.files s := by
      apply mem_files.mpr
      rw [hp]
      exact ⟨mem_filesBelow hl (hreach.of_suffix hbelow) hbelow hcontent,
        (hsettled.admits _).symm.trans hadmitted⟩
    apply Option.ext
    intro e
    rw [hindex,← hload,hloaded,hsettled.config]
    constructor
    · rintro ⟨-,heq,haccept⟩
      rw [Except.ok.inj heq,if_pos haccept]
    · intro he
      split at he
      · rename_i haccept
        cases he
        exact ⟨hfile,rfl,haccept⟩
      · cases he
  · intro k d hd
    obtain ⟨-,hloaded,-⟩ := (hindex k d).mp hd
    exact ⟨d,(hload k).trans hloaded⟩

theorem tracks_indexed (hroot : Named root) (hs : s.tree.Named) (config : Config) :
    Tracks (indexed s root config) root s (indexed s root config) ∧
      Readable (indexed s root config) s (indexed s root config) := by
  unfold indexed
  apply tracks_index (root_new hroot s config) _ hroot hs
  intro k
  unfold new
  rfl

lemma settled_indexed (hroot : Named root) (s s' : FileSystem) (config : Config) :
    (indexed s' root config).root = (indexed s root config).root ∧
      (indexed s' root config).config = (indexed s root config).config := by
  have hindex (s : FileSystem) := settled_index (new s (pathOf root) config) s
  unfold indexed
  rw [(hindex s).root,(hindex s').root,(hindex s).config,(hindex s').config]
  rw [root_new hroot,root_new hroot]
  unfold new
  exact ⟨rfl,rfl⟩

/-- A run of changes, each of them noticed, keeps track of all files. -/
theorem Tracks.run {changes : List FileChange} (h : Tracks q root s p) (hs : s.tree.Named)
    (hchanges : ∀ c ∈ changes, c.Inside root) :
    Tracks q root (changes.foldl Project.follow (s,p)).1 (changes.foldl Project.follow (s,p)).2 := by
  induction changes generalizing s p with
  | nil => exact h
  | cons c rest ih =>
    have hc := hchanges c List.mem_cons_self
    exact ih (h.follow hs hc) (FileChange.named_apply hc hs) fun c hc => hchanges c (List.mem_cons_of_mem _ hc)

theorem Tracks.readable_run {changes : List FileChange} (h : Tracks q root s p) (hreadable : Readable q s p)
    (hs : s.tree.Named) (hchanges : ∀ c ∈ changes, c.Inside root) (hheeds : HeedsAll q s changes) :
    Readable q (changes.foldl Project.follow (s,p)).1 (changes.foldl Project.follow (s,p)).2 := by
  induction changes generalizing s p with
  | nil => exact hreadable
  | cons c rest ih =>
    have hc := hchanges c List.mem_cons_self
    exact ih (h.follow hs hc) (h.readable_follow hreadable hs hc hheeds.1) (FileChange.named_apply hc hs)
      (fun c hc => hchanges c (List.mem_cons_of_mem _ hc)) hheeds.2

lemma named_run {changes : List FileChange} (hs : s.tree.Named) (hchanges : ∀ c ∈ changes, c.Inside root) :
    (changes.foldl Project.follow (s,p)).1.tree.Named := by
  induction changes generalizing s p with
  | nil => exact hs
  | cons c rest ih =>
    exact ih (FileChange.named_apply (hchanges c List.mem_cons_self) hs) fun c hc =>
      hchanges c (List.mem_cons_of_mem _ hc)

/-- Two projects that keep track of the same files have the same documents of files that can be read. -/
lemma Tracks.documentAt?_eq {q' p' : Project} (h : Tracks q root s p) (h' : Tracks q' root s p')
    (hq : q'.root = q.root ∧ q'.config = q.config) {k : Path} {d e : Document}
    (hk : p.documentAt? k = some d) (he : q.load s k = .ok e) : p'.documentAt? k = some d := by
  obtain ⟨l,rfl,hl,hbelow,hadmitted⟩ := h.keys k d hk
  have hadmits : q'.admits (pathOf l) = q.admits (pathOf l) := by
    unfold Project.admits
    rw [hq.1,hq.2]
  rw [h.current l e hl hbelow hadmitted he] at hk
  rw [h'.current l e hl hbelow (hadmits.trans hadmitted) ((load_congr hq.2 s _).trans he),hq.2]
  exact hk

/-- After any run of changes, a project that is indexed anew has exactly those documents of the old one
whose files can still be read. If every change heeds the rules, those are all its documents. -/
theorem index_agrees_after {config : Config} {changes : List FileChange} (hroot : Named root)
    (hs : s.tree.Named) (hchanges : ∀ c ∈ changes, c.Inside root) :
    (∀ k d, (indexed (changes.foldl follow (s,indexed s root config)).1 root config).documentAt? k = some d ↔
      (changes.foldl follow (s,indexed s root config)).2.documentAt? k = some d ∧
        ∃ e, (indexed s root config).load (changes.foldl follow (s,indexed s root config)).1 k = .ok e) ∧
    (HeedsAll (indexed s root config) s changes → ∀ k,
      (indexed (changes.foldl follow (s,indexed s root config)).1 root config).documentAt? k =
        (changes.foldl follow (s,indexed s root config)).2.documentAt? k) := by
  obtain ⟨htracks,hreadable⟩ := tracks_indexed hroot hs config
  have hrun := htracks.run hs hchanges
  have hreads := htracks.readable_run hreadable hs hchanges
  have hafter := named_run (p := indexed s root config) hs hchanges
  generalize changes.foldl follow (s,indexed s root config) = state at hrun hreads hafter ⊢
  obtain ⟨t,p⟩ := state
  obtain ⟨hfresh,hreadable⟩ := tracks_indexed hroot hafter config
  have hsettled := settled_indexed hroot s t config
  have hload := load_congr hsettled.2 t
  have hiff (k : Path) (d : Document) : (indexed t root config).documentAt? k = some d ↔
      p.documentAt? k = some d ∧ ∃ e, (indexed s root config).load t k = .ok e := by
    constructor
    · intro hd
      obtain ⟨e,he⟩ := hreadable k d hd
      exact ⟨hfresh.documentAt?_eq hrun ⟨hsettled.1.symm,hsettled.2.symm⟩ hd he,e,(hload k).symm.trans he⟩
    · rintro ⟨hd,e,he⟩
      exact hrun.documentAt?_eq hfresh hsettled hd he
  refine ⟨hiff,?_⟩
  intro hheeds k
  apply Option.ext
  intro d
  rw [hiff,and_iff_left_iff_imp]
  exact hreads hheeds k d

/-- A file is written, another one with the directory around it and written again, and the directory is
taken out. -/
theorem index_agrees_after_removal : ∃ changes : List FileChange,
    changes = [.write ["B.qml","w"] "B\x7b\x7d".toUTF8 1,.write ["A.qml","d","w"] "A\x7b\x7d".toUTF8 2,
      .write ["A.qml","d","w"] "C\x7b\x7d".toUTF8 3,.remove ["d","w"]] ∧
    (∀ c ∈ changes, c.Inside ["w"]) ∧ HeedsAll (indexed {} ["w"] {}) {} changes ∧
    ((changes.foldl follow ({},indexed {} ["w"] {})).2.documentAt? ⟨"/w/B.qml"⟩).isSome ∧
    ∀ k, (indexed (changes.foldl follow ({},indexed {} ["w"] {})).1 ["w"] {}).documentAt? k =
      (changes.foldl follow ({},indexed {} ["w"] {})).2.documentAt? k := by
  have hinside : ∀ c ∈ [.write ["B.qml","w"] "B\x7b\x7d".toUTF8 1,.write ["A.qml","d","w"] "A\x7b\x7d".toUTF8 2,
      .write ["A.qml","d","w"] "C\x7b\x7d".toUTF8 3,.remove ["d","w"]], FileChange.Inside ["w"] c := by decide
  have hheeds : HeedsAll (indexed {} ["w"] {}) {} [.write ["B.qml","w"] "B\x7b\x7d".toUTF8 1,
      .write ["A.qml","d","w"] "A\x7b\x7d".toUTF8 2,.write ["A.qml","d","w"] "C\x7b\x7d".toUTF8 3,
      .remove ["d","w"]] := by
    refine ⟨fun _ => ?_,fun _ => ?_,fun _ => ?_,⟨by decide,fun _ => ?_⟩,trivial⟩
    all_goals decide +kernel
  refine ⟨_,rfl,hinside,hheeds,by decide +kernel,?_⟩
  exact (index_agrees_after (by decide) FileTree.named_empty hinside).2 hheeds

/-- A file is written, and then overwritten with a byte that is no text. Its document stays, where a
project that is indexed anew has none. -/
theorem index_disagrees_after_bad_bytes :
    (∀ c ∈ [.write ["A.qml","w"] "A\x7b\x7d".toUTF8 1,.write ["A.qml","w"] ⟨#[255]⟩ 2], FileChange.Inside ["w"] c) ∧
    (([.write ["A.qml","w"] "A\x7b\x7d".toUTF8 1,.write ["A.qml","w"] ⟨#[255]⟩ 2].foldl follow
      ({},indexed {} ["w"] {})).2.documentAt? ⟨"/w/A.qml"⟩).isSome ∧
    ((indexed ([.write ["A.qml","w"] "A\x7b\x7d".toUTF8 1,.write ["A.qml","w"] ⟨#[255]⟩ 2].foldl follow
      ({},indexed {} ["w"] {})).1 ["w"] {}).documentAt? ⟨"/w/A.qml"⟩).isNone := by
  refine ⟨by decide,by decide +kernel,by decide +kernel⟩

end Project

end QmlCodeModel
