import QmlCodeModel.Proofs.Path

/-! Paths that are written step by step, without detours. Seen from a clean directory, such a path is clean, and
no other path is. -/
namespace QmlCodeModel

/-- Parts joined by the separator again are the text. -/
lemma intercalate_splitOnChar (separator : Char) (text : List Char) :
    [separator].intercalate (splitOnChar separator text) = text := by
  induction text with
  | nil => rfl
  | cons c rest ih =>
    rw [splitOnChar]
    split
    · rename_i hc
      cases hparts : splitOnChar separator rest with
      | nil => exact absurd hparts (splitOnChar_ne_nil separator rest)
      | cons part parts =>
        rw [hparts] at ih
        rw [List.intercalate_cons_cons,ih,eq_of_beq hc]
        rfl
    · cases hparts : splitOnChar separator rest with
      | nil => exact absurd hparts (splitOnChar_ne_nil separator rest)
      | cons part parts =>
        rw [hparts] at ih
        cases parts with
        | nil =>
          rw [List.intercalate_singleton] at ih ⊢
          rw [ih]
        | cons next parts =>
          rw [List.intercalate_cons_cons] at ih ⊢
          rw [← ih]
          rfl

namespace Path

variable {p directory : Path}

/-- What is written behind the slash of an absolute path, or all of the text. -/
def written (p : Path) : List Char := if p.isAbsolute then p.text.toList.tail else p.text.toList

/-- Every part between slashes is a step by its name: none is empty, or one or two dots. -/
def Plain (p : Path) : Prop := ∀ part ∈ splitOnChar '/' p.written, IsStep (String.ofList part)

lemma toList_of_isAbsolute (h : p.isAbsolute) : p.text.toList = '/' :: p.written := by
  rw [written,if_pos h]
  obtain ⟨rest,hrest⟩ := List.head?_eq_some_iff.mp (eq_of_beq h)
  rw [hrest]
  rfl

lemma Plain.clean_eq (h : p.isAbsolute) (hplain : p.Plain) : p.clean = p := by
  have htexts : ((splitOnChar '/' p.written).map String.ofList).map String.toList = splitOnChar '/' p.written := by
    rw [List.map_map]
    exact (List.map_congr_left fun _ _ => String.toList_ofList).trans (List.map_id _)
  have hnames : Component.ofParts (splitOnChar '/' p.written) =
      ((splitOnChar '/' p.written).map String.ofList).map Component.name := by
    have hsteps : ∀ text ∈ (splitOnChar '/' p.written).map String.ofList, IsStep text := by
      intro text htext
      obtain ⟨part,hpart,rfl⟩ := List.mem_map.mp htext
      exact hplain part hpart
    rw [← Component.ofParts_names hsteps,htexts]
  have hcomponents : p.components = .root :: ((splitOnChar '/' p.written).map String.ofList).map .name := by
    rw [components,if_pos h,toList_of_isAbsolute h,← hnames]
    rfl
  have hdirect : p.direct =
      { absolute := true, reversed := ((splitOnChar '/' p.written).map String.ofList).reverse } := by
    rw [direct,hcomponents,List.foldl_cons,foldl_names]
    simp [Direct.step]
  refine eq_of_toList ?_
  rw [clean,hdirect,toList_of_isAbsolute h]
  simp only [Direct.toPath,Direct.steps,List.reverse_reverse,List.replicate_zero,List.nil_append,if_true,
    String.toList_append,String.toList_intercalate,htexts]
  exact congrArg ('/' :: ·) (intercalate_splitOnChar '/' p.written)

/-- An absolute path that is clean is written step by step, but for the root. -/
lemma plain_of_clean (h : p.isAbsolute) (hclean : p.clean = p) (hroot : p ≠ ⟨"/"⟩) : p.Plain := by
  have hdirect := clean_direct p
  have habsolute := absolute_direct h
  have hups := hdirect.ups habsolute
  have htext : p.text.toList = '/' :: ("/".intercalate p.direct.steps).toList := by
    conv_lhs => rw [← hclean]
    simp [clean,Direct.toPath,habsolute]
  have hwritten : p.written = ("/".intercalate p.direct.steps).toList := by
    rw [toList_of_isAbsolute h] at htext
    exact (List.cons.inj htext).2
  have hsteps : p.direct.steps ≠ [] := by
    intro hnil
    rw [hnil] at htext
    exact hroot (eq_of_toList htext)
  intro part hpart
  rw [hwritten,String.toList_intercalate] at hpart
  change part ∈ splitOnChar '/' (['/'].intercalate _) at hpart
  rw [splitOnChar_intercalate (by simpa using hsteps) hdirect.slash_notMem] at hpart
  obtain ⟨text,htext,rfl⟩ := List.mem_map.mp hpart
  rw [Direct.steps,hups,List.replicate_zero,List.nil_append,List.mem_reverse] at htext
  rw [String.ofList_toList]
  exact hdirect.names text htext

theorem clean_iff_plain (h : p.isAbsolute) (hroot : p.clean ≠ ⟨"/"⟩) : p.clean = p ↔ p.Plain := by
  refine ⟨fun hclean => plain_of_clean h hclean ?_,Plain.clean_eq h⟩
  rwa [hclean] at hroot

lemma Plain.getLast? (h : p.isAbsolute) (hplain : p.Plain) : p.text.toList.getLast? ≠ some '/' := by
  have hempty : ¬IsStep (String.ofList []) := fun hstep => hstep.nonempty rfl
  intro hlast
  rw [toList_of_isAbsolute h] at hlast
  obtain ⟨front,hfront⟩ := List.getLast?_eq_some_iff.mp hlast
  unfold Plain at hplain
  cases front with
  | nil =>
    rw [(List.cons.inj hfront).2] at hplain
    exact hempty (hplain [] (List.mem_singleton_self []))
  | cons c front =>
    have hwritten : p.written = front ++ '/' :: [] := (List.cons.inj hfront).2
    rw [hwritten,splitOnChar_append_cons] at hplain
    exact hempty (hplain [] (List.mem_append_right _ (List.mem_singleton_self [])))

/-- From a clean directory, a path is seen as it is written. -/
theorem plain_join (h : directory.isAbsolute) (hclean : directory.clean = directory) (p : Path) :
    (directory.join p).Plain ↔ p.Plain := by
  unfold join
  by_cases hp : p.isAbsolute
  · rw [if_pos hp]
  have hwritten : p.written = p.text.toList := if_neg hp
  rw [if_neg hp]
  by_cases hroot : directory = ⟨"/"⟩
  · subst hroot
    rw [if_pos (by decide)]
    have hjoined : (Path.mk ("/" ++ p.text)).written = p.text.toList := by
      have hcons : (Path.mk ("/" ++ p.text)).text.toList = '/' :: p.text.toList := by simp
      rw [written,hcons,if_pos (by rw [isAbsolute,hcons]; rfl)]
      rfl
    rw [Plain,hjoined,Plain,hwritten]
  · have hplain := plain_of_clean h hclean hroot
    have htext := toList_of_isAbsolute h
    have hslash : ¬(directory.isEmpty || directory.text.toList.getLast? == some '/') := by
      have hempty : directory.isEmpty = false := by
        rw [isEmpty,← Bool.not_eq_true,String.isEmpty_iff]
        intro hnil
        rw [hnil] at htext
        cases htext
      simpa [hempty] using hplain.getLast? h
    rw [if_neg hslash]
    have hjoined : (Path.mk (directory.text ++ "/" ++ p.text)).written =
        directory.written ++ '/' :: p.text.toList := by
      have hcons : (Path.mk (directory.text ++ "/" ++ p.text)).text.toList =
          '/' :: (directory.written ++ '/' :: p.text.toList) := by simp [htext]
      rw [written,hcons,if_pos (by rw [isAbsolute,hcons]; rfl)]
      rfl
    rw [Plain,hjoined,splitOnChar_append_cons,List.forall_mem_append,Plain,hwritten]
    exact and_iff_right hplain

/-- The directory of a clean file is clean. -/
lemma parent?_toPath {d : Direct} (h : d.Clean) (habsolute : d.absolute) {last : String} {rest : List String}
    (hreversed : d.reversed = last :: rest) :
    d.toPath.parent? = some (Direct.toPath { d with reversed := rest }) := by
  have hcomponents : d.toPath.components = (.root :: rest.reverse.map .name) ++ [.name last] := by
    rw [h.components,if_pos habsolute,h.ups habsolute,hreversed]
    simp
  have hpath (path : Path) (hpath : path.text.toList = '/' :: ("/".intercalate rest.reverse).toList) :
      path = Direct.toPath { d with reversed := rest } := by
    refine eq_of_toList (hpath.trans ?_)
    simp [Direct.toPath,Direct.steps,habsolute,h.ups habsolute]
  unfold parent?
  rw [hcomponents,List.getLast?_concat,List.dropLast_concat]
  dsimp only
  cases hnames : rest.reverse with
  | nil =>
    refine congrArg some (hpath _ ?_)
    rw [hnames]
    rfl
  | cons first names =>
    refine congrArg some (hpath _ ?_)
    rw [hnames]
    simp only [List.map_cons,List.map_map,String.toList_intercalate]
    exact List.intercalate_cons_cons

lemma clean_parent? (h : p.isAbsolute) (hclean : p.clean = p) (hroot : p ≠ ⟨"/"⟩) :
    ∃ above, p.parent? = some above ∧ above.isAbsolute ∧ above.clean = above := by
  have hdirect := clean_direct p
  have habsolute := absolute_direct h
  have hups := hdirect.ups habsolute
  have hpath : p.direct.toPath = p := hclean
  cases hreversed : p.direct.reversed with
  | nil =>
    refine absurd (hpath.symm.trans ?_) hroot
    simp [Direct.toPath,Direct.steps,hups,hreversed,habsolute]
  | cons last rest =>
    have hparent := parent?_toPath hdirect habsolute hreversed
    rw [hpath] at hparent
    refine ⟨_,hparent,by simp [Direct.toPath,isAbsolute,habsolute],?_⟩
    have hrest : Direct.Clean { p.direct with reversed := rest } := by
      refine ⟨hdirect.ups,fun text htext => hdirect.names text ?_⟩
      rw [hreversed]
      exact List.mem_cons_of_mem _ htext
    rw [clean,hrest.direct_toPath]

lemma clean_absolute (p here : Path) : (p.absolute here).clean = p.absolute here := by
  unfold absolute
  dsimp only
  split <;> exact clean_clean _

lemma absolute_of_isAbsolute (h : p.isAbsolute) (here : Path) : p.absolute here = p.clean := by
  unfold absolute
  dsimp only
  rw [isAbsolute_clean h,Bool.true_or,if_pos rfl]

end Path
end QmlCodeModel
