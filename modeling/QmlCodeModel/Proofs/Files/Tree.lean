import Mathlib.Data.List.Basic
import QmlCodeModel.Proofs.Files.Location

/-! What the system answers about the path of a location, and what changes when something is written there
or taken out. -/
namespace QmlCodeModel

open Location

namespace FileTree

variable {t t' : FileTree} {l k around : Location} {name : String}

/-- The bytes of the file at a location, if there is one. -/
def content? (t : FileTree) (l : Location) : Option ByteArray :=
  match t.entry? l with
  | some (.file bytes _) => some bytes
  | _ => none

/-- All names in a tree can be steps of a path. -/
def Named (t : FileTree) : Prop := ∀ l, t.entry? l ≠ none → Location.Named l

lemma named_empty : Named empty := by
  intro l hl
  cases l with
  | nil => exact fun name hname => absurd hname List.not_mem_nil
  | cons name around => exact absurd rfl hl

lemma entry?_of_content {bytes : ByteArray} (h : t.content? l = some bytes) :
    ∃ modified, t.entry? l = some (.file bytes modified) := by
  unfold content? at h
  split at h
  · rename_i b modified he
    cases h
    exact ⟨modified,he⟩
  · cases h

/-- What is above something is a directory. -/
lemma directory_of_suffix (hk : k <:+ l) (hne : k ≠ l) (h : t.entry? l ≠ none) :
    t.entry? k = some .directory := by
  induction l with
  | nil =>
    rw [List.suffix_nil.mp hk] at hne
    exact absurd rfl hne
  | cons name around ih =>
    have habove := t.inDirectory name around h
    obtain rfl | hk := List.suffix_cons_iff.mp hk
    · exact absurd rfl hne
    · by_cases heq : k = around
      · rw [heq]
        exact habove
      · apply ih hk heq
        rw [show t.entry? around = some .directory from habove]
        exact Option.some_ne_none _

lemma entry?_above (hk : k <:+ l) (h : (t.content? l).isSome) : t.entry? k ≠ none := by
  obtain ⟨bytes,hbytes⟩ := Option.isSome_iff_exists.mp h
  obtain ⟨modified,he⟩ := entry?_of_content hbytes
  have hthere : t.entry? l ≠ none := by simp [he]
  by_cases heq : k = l
  · rw [heq]
    exact hthere
  · rw [directory_of_suffix hk heq hthere]
    exact Option.some_ne_none _

lemma plain_of_isStep (h : Path.IsStep name) :
    ¬(name.toList = [] || name.toList = ['.']) ∧ name.toList ≠ ['.','.'] := by
  refine ⟨?_,h.parent⟩
  simp [h.nonempty,h.current]

/-- Names are followed to what stands there. -/
lemma follow_eq_ok {names : List String} (h : ∀ n ∈ names, Path.IsStep n) (here : Location) :
    t.follow here (names.map String.toList) = .ok l ↔ l = names.reverse ++ here ∧
      (∀ n ∈ names, n.utf8ByteSize ≤ maxNameSize) ∧ (names = [] ∨ t.entry? l ≠ none) := by
  induction names generalizing here with
  | nil =>
    simp [follow,eq_comm]
  | cons n rest ih =>
    obtain ⟨hplain,hparent⟩ := plain_of_isStep (h n List.mem_cons_self)
    have hpath : (n :: rest).reverse ++ here = rest.reverse ++ n :: here := by simp
    have hexists (hl : l = rest.reverse ++ n :: here) (he : t.entry? l ≠ none) :
        t.entry? here = some .directory ∧ t.entry? (n :: here) ≠ none := by
      have hsuffix : n :: here <:+ l := hl ▸ List.suffix_append _ _
      constructor
      · apply directory_of_suffix ((List.suffix_cons n here).trans hsuffix) _ he
        rintro rfl
        have hlength := hsuffix.length_le
        rw [List.length_cons] at hlength
        omega
      · by_cases heq : n :: here = l
        · rw [heq]
          exact he
        · rw [directory_of_suffix hsuffix heq he]
          exact Option.some_ne_none _
    rw [List.map_cons,follow,hpath]
    simp only [String.ofList_toList]
    rw [if_neg hplain,if_neg hparent]
    split
    · rename_i hdirectory
      refine ⟨fun h => (by cases h),?_⟩
      rintro ⟨hl,-,he⟩
      have := (hexists hl (he.resolve_left (List.cons_ne_nil _ _))).1
      simp [isDirectory,this] at hdirectory
    split
    · rename_i hsize
      refine ⟨fun h => (by cases h),?_⟩
      rintro ⟨-,hsizes,-⟩
      have := hsizes n List.mem_cons_self
      omega
    · rename_i hsize
      rw [Nat.not_lt] at hsize
      split
      · rename_i hnone
        refine ⟨fun h => (by cases h),?_⟩
        rintro ⟨hl,-,he⟩
        have := (hexists hl (he.resolve_left (List.cons_ne_nil _ _))).2
        exact absurd (Option.isNone_iff_eq_none.mp hnone) this
      · rename_i hsome
        rw [ih (fun m hm => h m (List.mem_cons_of_mem _ hm)),List.forall_mem_cons]
        constructor
        · rintro ⟨rfl,hsizes,he⟩
          refine ⟨rfl,⟨hsize,hsizes⟩,.inr ?_⟩
          obtain rfl | he := he
          · simpa using hsome
          · exact he
        · rintro ⟨rfl,⟨-,hsizes⟩,he⟩
          exact ⟨rfl,hsizes,.inr (he.resolve_left (List.cons_ne_nil _ _))⟩

end FileTree

/-- The system can be asked about the path of a location. -/
structure Location.Reachable (l : Location) : Prop where
  text : '\x00' ∉ (FileSystem.pathOf l).text.toList
  length : (FileSystem.pathOf l).text.utf8ByteSize ≤ maxPathSize
  names : ∀ n ∈ l, n.utf8ByteSize ≤ maxNameSize

/-- The way to a location leads through the locations around. -/
lemma Location.Reachable.of_suffix {l k : Location} (h : Reachable k) (hl : l <:+ k) : Reachable l := by
  induction k with
  | nil =>
    rw [List.suffix_nil.mp hl]
    exact h
  | cons name around ih =>
    obtain rfl | hl := List.suffix_cons_iff.mp hl
    · exact h
    apply ih _ hl
    cases around with
    | nil => exact ⟨by decide,by decide,by simp⟩
    | cons n rest =>
      have htext : (FileSystem.pathOf (name :: n :: rest)).text =
          (FileSystem.pathOf (n :: rest)).text ++ ("/" ++ name) := by
        apply String.toList_injective
        rw [FileSystem.toList_pathOf_cons name,if_neg (List.cons_ne_nil _ _),String.toList_append,
          String.toList_append]
        rfl
      obtain ⟨hnul,hlength,hnames⟩ := h
      rw [htext] at hnul hlength
      rw [String.toList_append] at hnul
      rw [String.utf8ByteSize_append] at hlength
      refine ⟨fun hmem => hnul (List.mem_append_left _ hmem),by omega,?_⟩
      exact fun m hm => hnames m (List.mem_cons_of_mem _ hm)

namespace FileSystem

variable {s : FileSystem} {l k : Location}

lemma partsOf_pathOf (h : Named l) (s : FileSystem) :
    s.partsOf (pathOf l) = [] :: if l = [] then [[]] else l.reverse.map String.toList := by
  unfold partsOf Path.join
  rw [isAbsolute_pathOf,if_pos rfl,toList_pathOf,splitOnChar_cons_self]
  congr 1
  split
  · rename_i hnil
    rw [hnil]
    rfl
  · rename_i hne
    apply splitOnChar_intercalate
    · simpa using hne
    · intro part hpart
      obtain ⟨n,hn,rfl⟩ := List.mem_map.mp hpart
      exact (h n (List.mem_reverse.mp hn)).slash

lemma follow_root (t : FileTree) (parts : List (List Char)) : t.follow [] ([] :: parts) = t.follow [] parts := by
  rw [FileTree.follow]
  simp [FileTree.isDirectory,FileTree.entry?,entryAt?]

/-- Where the path of a location leads. -/
lemma locate_eq_ok (h : Named l) :
    s.locate (pathOf l) = .ok k ↔ k = l ∧ Reachable l ∧ s.tree.entry? l ≠ none := by
  have hfollow : s.tree.follow [] (s.partsOf (pathOf l)) = .ok k ↔
      k = l ∧ (∀ n ∈ l, n.utf8ByteSize ≤ maxNameSize) ∧ s.tree.entry? l ≠ none := by
    rw [partsOf_pathOf h,follow_root]
    split
    · rename_i hnil
      rw [hnil,follow_root,FileTree.follow,Except.ok.injEq,eq_comm]
      simp [FileTree.entry?,entryAt?]
    · rename_i hne
      rw [FileTree.follow_eq_ok fun n hn => h n (List.mem_reverse.mp hn)]
      simp only [List.reverse_reverse,List.append_nil,List.mem_reverse,List.reverse_eq_nil_iff,hne,false_or]
      constructor
      · rintro ⟨rfl,hnames,he⟩
        exact ⟨rfl,hnames,he⟩
      · rintro ⟨rfl,hnames,he⟩
        exact ⟨rfl,hnames,he⟩
  unfold locate
  rw [isEmpty_pathOf]
  split
  · rename_i hnul
    refine ⟨fun h => (by cases h),?_⟩
    rintro ⟨-,hreach,-⟩
    exact absurd (by simpa using hnul) hreach.text
  rw [if_neg Bool.false_ne_true]
  split
  · rename_i hlength
    refine ⟨fun h => (by cases h),?_⟩
    rintro ⟨-,hreach,-⟩
    have := hreach.length
    omega
  · rename_i hnul hlength
    rw [hfollow]
    constructor
    · rintro ⟨hk,hnames,he⟩
      exact ⟨hk,⟨by simpa using hnul,Nat.not_lt.mp hlength,hnames⟩,he⟩
    · rintro ⟨hk,hreach,he⟩
      exact ⟨hk,hreach.names,he⟩

lemma locate_of_not (h : Named l) (hnot : ¬(Reachable l ∧ s.tree.entry? l ≠ none)) :
    ∃ fault, s.locate (pathOf l) = .error fault := by
  cases hl : s.locate (pathOf l) with
  | error fault => exact ⟨fault,rfl⟩
  | ok k => exact absurd ((locate_eq_ok h).mp hl).2 hnot

lemma contains_iff (h : Named l) : s.contains (pathOf l) ↔ Reachable l ∧ s.tree.entry? l ≠ none := by
  unfold contains
  by_cases hl : Reachable l ∧ s.tree.entry? l ≠ none
  · rw [(locate_eq_ok h).mpr ⟨rfl,hl⟩]
    exact iff_of_true rfl hl
  · obtain ⟨fault,hfault⟩ := locate_of_not h hl
    rw [hfault]
    exact iff_of_false Bool.false_ne_true hl

/-- What stands at the path of a location is what stands at the location, if it can be asked for. -/
lemma entry_eq_ok {e : FileEntry} (h : Named l) :
    s.entry (pathOf l) = .ok e ↔ Reachable l ∧ s.tree.entry? l = some e := by
  unfold entry
  by_cases hl : Reachable l ∧ s.tree.entry? l ≠ none
  · rw [(locate_eq_ok h).mpr ⟨rfl,hl⟩]
    obtain ⟨e',he⟩ := Option.ne_none_iff_exists'.mp hl.2
    simp [bind,Except.bind,he,hl.1]
  · obtain ⟨fault,hfault⟩ := locate_of_not h hl
    rw [hfault]
    refine iff_of_false (fun hok => (by cases hok)) ?_
    rintro ⟨hreach,he⟩
    exact hl ⟨hreach,by simp [he]⟩

lemma isFile_iff (h : Named l) :
    s.isFile (pathOf l) ↔ Reachable l ∧ (s.tree.content? l).isSome := by
  unfold isFile
  constructor
  · intro hfile
    split at hfile
    · rename_i bytes modified he
      obtain ⟨hreach,he⟩ := (entry_eq_ok h).mp he
      refine ⟨hreach,?_⟩
      unfold FileTree.content?
      rw [he]
      rfl
    · cases hfile
  · rintro ⟨hreach,hsome⟩
    obtain ⟨bytes,hbytes⟩ := Option.isSome_iff_exists.mp hsome
    obtain ⟨modified,he⟩ := FileTree.entry?_of_content hbytes
    rw [(entry_eq_ok h).mpr ⟨hreach,he⟩]

end FileSystem

/-! All files below a location. -/

lemma FiniteMap.mem_entries_iff {κ α : Type} [DecidableEq κ] {m : FiniteMap κ α} {key : κ} {value : α} :
    (key,value) ∈ m.entries ↔ m.get? key = some value := by
  obtain ⟨entries,hdistinct⟩ := m
  unfold get?
  induction entries with
  | nil => simp
  | cons e rest ih =>
    obtain ⟨k,v⟩ := e
    obtain ⟨hk,hrest⟩ := List.nodup_cons.mp hdistinct
    rw [List.mem_cons,List.lookup_cons]
    by_cases heq : key = k
    · subst heq
      have hnot : (key,value) ∉ rest := fun hmem => hk (List.mem_map.mpr ⟨_,hmem,rfl⟩)
      simp [hnot,eq_comm]
    · rw [show (key,value) ∈ rest ↔ _ from ih hrest]
      have hne : (key == k) = false := by simpa using heq
      simp [heq,hne]

namespace FileSystem

variable {s : FileSystem} {l root : Location} {file : Path}

lemma foldl_join {names : List String} (hl : Named l) (h : ∀ n ∈ names, Path.IsStep n) :
    names.foldl (fun p name => p.join ⟨name⟩) (pathOf l) = pathOf (names.reverse ++ l) := by
  induction names generalizing l with
  | nil => rfl
  | cons n rest ih =>
    have hn := h n List.mem_cons_self
    rw [List.foldl_cons,join_pathOf hn hl,
      ih (named_cons.mpr ⟨hn,hl⟩) fun m hm => h m (List.mem_cons_of_mem _ hm)]
    simp

lemma pathOf_of_mem_filesBelow (hnamed : s.tree.Named) (hroot : Named root)
    (h : file ∈ s.filesBelow (pathOf root)) : ∃ l, file = pathOf l ∧ root <:+ l ∧ Named l := by
  unfold filesBelow at h
  split at h
  · rename_i k hk
    obtain ⟨rfl,-,-⟩ := (locate_eq_ok hroot).mp hk
    obtain ⟨way,hway,rfl⟩ := List.mem_map.mp h
    obtain ⟨⟨l,e⟩,he,hfile⟩ := List.mem_filterMap.mp hway
    dsimp only at hfile
    split at hfile
    · obtain ⟨rest,hrest,rfl⟩ := Option.map_eq_some_iff.mp hfile
      rw [List.isSuffixOf?_eq_some_iff_append_eq] at hrest
      subst hrest
      have hl : Named (rest ++ k) := by
        cases hnil : rest ++ k with
        | nil => exact fun n hn => absurd hn List.not_mem_nil
        | cons n around =>
          apply hnamed
          rw [hnil,FiniteMap.mem_entries_iff] at he
          change s.tree.entries.get? (n :: around) ≠ none
          rw [he]
          exact Option.some_ne_none _
      refine ⟨rest ++ k,?_,List.suffix_append _ _,hl⟩
      rw [foldl_join hroot fun n hn => hl n (List.mem_append_left _ (List.mem_reverse.mp hn))]
      rw [List.reverse_reverse]
    · cases hfile
  · cases h

lemma mem_filesBelow (hl : Named l) (hreach : Reachable root) (hroot : root <:+ l)
    (h : (s.tree.content? l).isSome) : pathOf l ∈ s.filesBelow (pathOf root) := by
  obtain ⟨bytes,hbytes⟩ := Option.isSome_iff_exists.mp h
  obtain ⟨modified,he⟩ := FileTree.entry?_of_content hbytes
  have hthere := FileTree.entry?_above hroot h
  obtain ⟨rest,rfl⟩ := hroot
  have hnamed : Named root := hl.of_suffix (List.suffix_append _ _)
  unfold filesBelow
  rw [(locate_eq_ok hnamed).mpr ⟨rfl,hreach,hthere⟩]
  have hmem : rest.reverse ∈ s.tree.filesBelow root := by
    apply List.mem_filterMap.mpr
    refine ⟨(rest ++ root,.file bytes modified),?_,?_⟩
    · rw [FiniteMap.mem_entries_iff]
      unfold FileTree.entry? at he
      cases hnil : rest ++ root with
      | nil =>
        rw [hnil] at he
        cases he
      | cons n around =>
        rw [hnil] at he
        exact he
    · change (root.isSuffixOf? (rest ++ root)).map List.reverse = _
      rw [List.isSuffixOf?_eq_some_iff_append_eq.mpr rfl]
      rfl
  apply List.mem_map.mpr
  refine ⟨_,hmem,?_⟩
  rw [foldl_join hnamed fun n hn => hl n (List.mem_append_left _ (List.mem_reverse.mp hn)),List.reverse_reverse]

end FileSystem

/-! Changes. -/

namespace FileTree

variable {t t' : FileTree} {l k around : Location} {name : String}

lemma content?_put {e : FileEntry} (h : t.put? name around e = some t') (k : Location) :
    t'.content? k = if k = name :: around then (match e with
      | .file bytes _ => some bytes
      | .directory => none) else t.content? k := by
  unfold put? at h
  split at h
  · cases h
    unfold content? entry?
    simp only [entryAt?_insert]
    by_cases hk : k = name :: around
    · simp only [hk,if_true]
      cases e <;> rfl
    · simp only [hk,if_false]
  · cases h

lemma named_put {e : FileEntry} (h : t.put? name around e = some t') (hname : Path.IsStep name)
    (hnamed : t.Named) : t'.Named := by
  unfold put? at h
  split at h
  · rename_i hplace
    cases h
    intro l hl
    unfold entry? at hl
    simp only [entryAt?_insert] at hl
    split at hl
    · rename_i heq
      rw [heq]
      apply named_cons.mpr
      refine ⟨hname,hnamed around ?_⟩
      rw [hplace.1]
      exact Option.some_ne_none _
    · exact hnamed l hl
  · cases h

/-- To make a directory changes no file. -/
lemma content?_makeDirectory (h : t.makeDirectory? name around = some t') (k : Location) :
    t'.content? k = t.content? k := by
  unfold makeDirectory? at h
  split at h
  · rename_i hnone
    rw [content?_put h]
    split
    · rename_i hk
      rw [hk,content?,hnone]
    · rfl
  · cases h
    rfl
  · cases h

lemma named_makeDirectory (h : t.makeDirectory? name around = some t') (hname : Path.IsStep name)
    (hnamed : t.Named) : t'.Named := by
  unfold makeDirectory? at h
  split at h
  · exact named_put h hname hnamed
  · cases h
    exact hnamed
  · cases h

/-- Names are entered one in the other. -/
lemma enter?_names {names : List String} (hnames : ∀ n ∈ names, Path.IsStep n) {here : Location}
    (h : t.enter? here (names.map String.toList) = some (t',l)) (hnamed : t.Named) :
    l = names.reverse ++ here ∧ (∀ k, t'.content? k = t.content? k) ∧ t'.Named := by
  induction names generalizing t here with
  | nil =>
    cases h
    exact ⟨rfl,fun _ => rfl,hnamed⟩
  | cons n rest ih =>
    have hn := hnames n List.mem_cons_self
    obtain ⟨hplain,hparent⟩ := plain_of_isStep hn
    rw [List.map_cons,enter?,if_neg hplain,if_neg hparent,String.ofList_toList] at h
    obtain ⟨u,hu,h⟩ := Option.bind_eq_some_iff.mp h
    obtain ⟨hl,hcontent,hnamed⟩ :=
      ih (fun m hm => hnames m (List.mem_cons_of_mem _ hm)) h (named_makeDirectory hu hn hnamed)
    refine ⟨by simpa using hl,?_,hnamed⟩
    intro k
    rw [hcontent,content?_makeDirectory hu]

lemma content?_remove (t : FileTree) {l : Location} (hl : l ≠ []) (k : Location) :
    (t.remove l).content? k = if l <:+ k then none else t.content? k := by
  unfold content? entry? remove
  simp only [entryAt?_filterKeys]
  by_cases hk : l <:+ k
  · have hne : k ≠ [] := by
      rintro rfl
      exact hl (List.suffix_nil.mp hk)
    simp [hk,hne]
  · simp [hk]

lemma named_remove (h : t.Named) (l : Location) : (t.remove l).Named := by
  intro k hk
  unfold entry? remove at hk
  simp only [entryAt?_filterKeys] at hk
  split at hk
  · exact h k hk
  · exact absurd rfl hk

end FileTree

namespace FileSystem

variable {s : FileSystem} {l k : Location} {name : String}

/-- Something is written, or nothing can be written there. -/
lemma write_cases (h : Named (name :: l)) (hnamed : s.tree.Named) (bytes : ByteArray) (modified : Int) :
    s.write (pathOf (name :: l)) bytes modified = s ∨
    ∃ t : FileTree, s.write (pathOf (name :: l)) bytes modified = { s with tree := t } ∧ t.Named ∧
      ∀ k, t.content? k = if k = name :: l then some bytes else s.tree.content? k := by
  obtain ⟨hname,hl⟩ := named_cons.mp h
  have hparts : s.partsOf (pathOf (name :: l)) = ([] :: l.reverse.map String.toList) ++ [name.toList] := by
    rw [partsOf_pathOf h,if_neg (List.cons_ne_nil _ _)]
    simp
  unfold write changeTree
  simp only [hparts,List.dropLast_concat,List.getLast?_concat]
  cases henter : s.tree.enter? [] ([] :: l.reverse.map String.toList) with
  | none => exact .inl rfl
  | some found =>
    obtain ⟨t,around⟩ := found
    rw [FileTree.enter?,if_pos (by simp)] at henter
    obtain ⟨haround,hcontent,ht⟩ :=
      FileTree.enter?_names (fun n hn => hl n (List.mem_reverse.mp hn)) henter hnamed
    rw [List.reverse_reverse,List.append_nil] at haround
    subst haround
    have hplain : name.toList ∉ [[],['.'],['.','.']] := by
      simp [hname.nonempty,hname.current,hname.parent]
    simp only [Option.bind_eq_bind,Option.bind_some,if_neg hplain,String.ofList_toList]
    cases hput : t.put? name around (.file bytes modified) with
    | none => exact .inl rfl
    | some t' =>
      refine .inr ⟨t',rfl,FileTree.named_put hput hname ht,?_⟩
      intro k
      rw [FileTree.content?_put hput,hcontent]

/-- Something is taken out, or nothing can be found there. -/
lemma remove_cases (h : Named l) (hne : l ≠ []) (hnamed : s.tree.Named) :
    ¬(s.remove (pathOf l)).contains (pathOf l) ∧ (s.remove (pathOf l) = s ∨
    ∃ t : FileTree, s.remove (pathOf l) = { s with tree := t } ∧ t.Named ∧
      ∀ k, t.content? k = if l <:+ k then none else s.tree.content? k) := by
  by_cases hl : Reachable l ∧ s.tree.entry? l ≠ none
  · have hremove : s.remove (pathOf l) = { s with tree := s.tree.remove l } := by
      unfold remove
      rw [(locate_eq_ok h).mpr ⟨rfl,hl⟩]
    rw [hremove]
    refine ⟨?_,.inr ⟨_,rfl,FileTree.named_remove hnamed l,FileTree.content?_remove s.tree hne⟩⟩
    rw [contains_iff h]
    rintro ⟨-,he⟩
    apply he
    unfold FileTree.entry? FileTree.remove
    simp [FileTree.entryAt?_filterKeys,hne]
  · obtain ⟨fault,hfault⟩ := locate_of_not h hl
    have hremove : s.remove (pathOf l) = s := by
      unfold remove
      rw [hfault]
    rw [hremove]
    refine ⟨?_,.inl rfl⟩
    rw [contains_iff h]
    exact hl

end FileSystem

end QmlCodeModel
