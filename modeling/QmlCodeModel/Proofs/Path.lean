import Mathlib.Tactic.Common
import QmlCodeModel.Path

/-! A clean path stays what it is when it is cleaned again, and so does one seen from the working
directory. A path behind a directory takes its steps from where those of the directory lead. -/
namespace QmlCodeModel

lemma splitOnChar_of_notMem {separator : Char} {text : List Char} (h : separator ∉ text) :
    splitOnChar separator text = [text] := by
  induction text with
  | nil => rfl
  | cons c rest ih =>
    simp only [List.mem_cons,not_or] at h
    obtain ⟨hc,hrest⟩ := h
    rw [splitOnChar,if_neg (by simpa using Ne.symm hc),ih hrest]

lemma splitOnChar_ne_nil (separator : Char) (text : List Char) : splitOnChar separator text ≠ [] := by
  cases text with
  | nil => exact List.cons_ne_nil _ _
  | cons c rest =>
    rw [splitOnChar]
    split
    · exact List.cons_ne_nil _ _
    · split <;> exact List.cons_ne_nil _ _

lemma splitOnChar_append_cons (separator : Char) (text rest : List Char) :
    splitOnChar separator (text ++ separator :: rest) =
      splitOnChar separator text ++ splitOnChar separator rest := by
  induction text with
  | nil => simp [splitOnChar]
  | cons c text ih =>
    rw [List.cons_append,splitOnChar,splitOnChar,ih]
    split
    · rfl
    · cases hparts : splitOnChar separator text with
      | nil => exact absurd hparts (splitOnChar_ne_nil separator text)
      | cons part parts => rfl

lemma splitOnChar_append {separator : Char} {part : List Char} (h : separator ∉ part)
    (rest : List Char) :
    splitOnChar separator (part ++ separator :: rest) = part :: splitOnChar separator rest := by
  rw [splitOnChar_append_cons,splitOnChar_of_notMem h,List.singleton_append]

/-- Parts without the separator are found again between the separators. -/
lemma splitOnChar_cons_self (separator : Char) (text : List Char) :
    splitOnChar separator (separator :: text) = [] :: splitOnChar separator text :=
  splitOnChar_append List.not_mem_nil text

lemma splitOnChar_intercalate {separator : Char} {parts : List (List Char)} (hne : parts ≠ [])
    (h : ∀ part ∈ parts, separator ∉ part) :
    splitOnChar separator ([separator].intercalate parts) = parts := by
  induction parts with
  | nil => exact absurd rfl hne
  | cons part rest ih =>
    have hpart := h part List.mem_cons_self
    cases rest with
    | nil => rw [List.intercalate_singleton,splitOnChar_of_notMem hpart]
    | cons next rest =>
      rw [List.intercalate_cons_cons,List.append_assoc,List.singleton_append,
        splitOnChar_append hpart,ih (List.cons_ne_nil _ _) fun p hp => h p (List.mem_cons_of_mem _ hp)]

/-- The characters of the parts of a text are those of the text, without the separator. -/
lemma mem_of_mem_splitOnChar {separator c : Char} {text part : List Char} (h : part ∈ splitOnChar separator text)
    (hc : c ∈ part) : c ∈ text ∧ c ≠ separator := by
  induction text generalizing part with
  | nil =>
    rw [List.mem_singleton.mp h] at hc
    exact absurd hc List.not_mem_nil
  | cons d rest ih =>
    have hlater {part : List Char} (h : part ∈ splitOnChar separator rest) (hc : c ∈ part) :
        c ∈ d :: rest ∧ c ≠ separator :=
      (ih h hc).imp_left (List.mem_cons_of_mem _)
    rw [splitOnChar] at h
    split at h
    · obtain rfl | h := List.mem_cons.mp h
      · exact absurd hc List.not_mem_nil
      · exact hlater h hc
    rename_i hd
    have hfirst : d ∈ d :: rest ∧ d ≠ separator := ⟨List.mem_cons_self,by simpa using hd⟩
    split at h
    · rename_i first others heq
      obtain rfl | h := List.mem_cons.mp h
      · obtain rfl | hc := List.mem_cons.mp hc
        · exact hfirst
        · exact hlater (heq ▸ List.mem_cons_self) hc
      · exact hlater (heq ▸ List.mem_cons_of_mem _ h) hc
    · rw [List.mem_singleton.mp h] at hc
      obtain rfl := List.mem_singleton.mp hc
      exact hfirst

lemma notMem_of_mem_splitOnChar {separator : Char} {text part : List Char}
    (h : part ∈ splitOnChar separator text) : separator ∉ part := fun hc => (mem_of_mem_splitOnChar h hc).2 rfl

namespace Path

/-- A text that can be a step of a clean path by its name. -/
structure IsStep (text : String) : Prop where
  nonempty : text.toList ≠ []
  current : text.toList ≠ ['.']
  parent : text.toList ≠ ['.','.']
  slash : '/' ∉ text.toList

/-- A path without detours whose steps have names, and which does not lead up from the root. -/
structure Direct.Clean (d : Direct) : Prop where
  ups : d.absolute → d.ups = 0
  names : ∀ text ∈ d.reversed, IsStep text

lemma Component.ofParts_append (parts others : List (List Char)) :
    Component.ofParts (parts ++ others) = Component.ofParts parts ++ Component.ofParts others :=
  List.filterMap_append

lemma Component.ofParts_names {texts : List String} (h : ∀ text ∈ texts, IsStep text) :
    Component.ofParts (texts.map String.toList) = texts.map Component.name := by
  induction texts with
  | nil => rfl
  | cons text rest ih =>
    have ih := ih fun t ht => h t (List.mem_cons_of_mem _ ht)
    obtain ⟨hne,hcurrent,hparent,-⟩ := h text List.mem_cons_self
    have hone : Component.ofParts [text.toList] = [.name text] := by
      simp [Component.ofParts,hne,hcurrent,hparent]
    rw [List.map_cons,← List.singleton_append,Component.ofParts_append,hone,ih]
    rfl

lemma Component.ofParts_ups (count : Nat) :
    Component.ofParts (List.replicate count ['.','.']) = List.replicate count .parent := by
  induction count with
  | zero => rfl
  | succ count ih =>
    rw [List.replicate_succ,← List.singleton_append,Component.ofParts_append,ih]
    rfl

lemma isStep_of_mem_ofParts {parts : List (List Char)} {text : String} (hslash : ∀ part ∈ parts, '/' ∉ part)
    (h : .name text ∈ Component.ofParts parts) : IsStep text := by
  obtain ⟨part,hpart,hname⟩ := List.mem_filterMap.mp h
  have hslash := hslash part hpart
  split at hname
  · cases hname
  split at hname
  · cases hname
  · rename_i hplain hparent
    cases hname
    simp only [Bool.or_eq_true,beq_iff_eq,not_or] at hplain hparent
    exact ⟨by simpa using hplain.1,by simpa using hplain.2,by simpa using hparent,by simpa using hslash⟩

lemma isStep_of_mem_components {p : Path} {text : String} (h : .name text ∈ p.components) :
    IsStep text := by
  have hslash : ∀ part ∈ splitOnChar '/' p.text.toList, '/' ∉ part := fun _ => notMem_of_mem_splitOnChar
  unfold components at h
  split at h
  · exact isStep_of_mem_ofParts hslash ((List.mem_cons.mp h).resolve_left (by simp))
  dsimp only at h
  split at h
  · exact isStep_of_mem_ofParts hslash ((List.mem_cons.mp h).resolve_left (by simp))
  · exact isStep_of_mem_ofParts hslash h

lemma root_notMem_ofParts (parts : List (List Char)) : .root ∉ Component.ofParts parts := by
  intro h
  obtain ⟨part,-,hpart⟩ := List.mem_filterMap.mp h
  split at hpart
  · cases hpart
  · split at hpart <;> cases hpart

lemma root_notMem_components {p : Path} (h : ¬p.isAbsolute) : .root ∉ p.components := by
  rw [components,if_neg h]
  split
  · exact fun hroot => root_notMem_ofParts _ ((List.mem_cons.mp hroot).resolve_left (by simp))
  · exact root_notMem_ofParts _

lemma components_of_isEmpty {p : Path} (h : p.isEmpty) : p.components = [] := by
  have htext : p.text = "" := String.isEmpty_iff.mp h
  rw [components,isAbsolute,htext]
  rfl

lemma Direct.Clean.step {d : Direct} (h : d.Clean) {c : Component}
    (hc : ∀ text, c = .name text → IsStep text) : (d.step c).Clean := by
  cases c with
  | root => exact ⟨fun _ => rfl,by simp [Direct.step]⟩
  | current => exact h
  | parent =>
    cases hreversed : d.reversed with
    | cons text rest =>
      simp only [Direct.step,hreversed]
      exact ⟨h.ups,fun t ht => h.names t (by rw [hreversed]; exact List.mem_cons_of_mem _ ht)⟩
    | nil =>
      simp only [Direct.step,hreversed]
      split
      · exact h
      · rename_i habsolute
        exact ⟨fun habs => absurd habs habsolute,by simp⟩
  | name text =>
    refine ⟨h.ups,fun t ht => ?_⟩
    obtain rfl | ht := List.mem_cons.mp ht
    · exact hc t rfl
    · exact h.names t ht

lemma Direct.Clean.foldl {d : Direct} (h : d.Clean) {steps : List Component}
    (hsteps : ∀ text, .name text ∈ steps → IsStep text) : (steps.foldl Direct.step d).Clean := by
  induction steps generalizing d with
  | nil => exact h
  | cons c rest ih =>
    refine ih (h.step ?_) fun text htext => hsteps text (List.mem_cons_of_mem _ htext)
    rintro text rfl
    exact hsteps text List.mem_cons_self

/-- What remains of a path once it is direct is clean. -/
lemma clean_direct (p : Path) : p.direct.Clean := by
  have hstart : Direct.Clean {} := ⟨fun _ => rfl,by simp⟩
  exact hstart.foldl fun _ => isStep_of_mem_components

/-- The steps between the slashes of a clean path. -/
lemma Direct.Clean.slash_notMem {d : Direct} (h : d.Clean) :
    ∀ part ∈ d.steps.map String.toList, '/' ∉ part := by
  intro part hpart
  obtain ⟨text,htext,rfl⟩ := List.mem_map.mp hpart
  obtain hup | hname := List.mem_append.mp htext
  · rw [List.eq_of_mem_replicate hup]
    decide
  · exact (h.names text (List.mem_reverse.mp hname)).slash

lemma Direct.Clean.ofParts {d : Direct} (h : d.Clean) :
    Component.ofParts (splitOnChar '/' ("/".intercalate d.steps).toList) =
      List.replicate d.ups .parent ++ d.reversed.reverse.map .name := by
  have hnames : ∀ text ∈ d.reversed.reverse, IsStep text := fun text ht =>
    h.names text (List.mem_reverse.mp ht)
  by_cases hsteps : d.steps = []
  · have hempty : d.ups = 0 ∧ d.reversed = [] := by simpa [Direct.steps] using hsteps
    rw [hsteps,hempty.1,hempty.2]
    rfl
  rw [String.toList_intercalate]
  change Component.ofParts (splitOnChar '/' (['/'].intercalate _)) = _
  rw [splitOnChar_intercalate (by simpa using hsteps) h.slash_notMem,Direct.steps,List.map_append,
    Component.ofParts_append,Component.ofParts_names hnames,List.map_replicate]
  change Component.ofParts (List.replicate d.ups ['.','.']) ++ _ = _
  rw [Component.ofParts_ups]

lemma Direct.Clean.head_steps {d : Direct} (h : d.Clean) {text : String}
    (htext : d.steps.head? = some text) : text.toList ≠ [] ∧ text.toList ≠ ['.'] := by
  obtain hup | hname := List.mem_append.mp (List.mem_of_mem_head? htext)
  · rw [List.eq_of_mem_replicate hup]
    decide
  · have hstep := h.names text (List.mem_reverse.mp hname)
    exact ⟨hstep.nonempty,hstep.current⟩

lemma Direct.Clean.head_splitOnChar {d : Direct} (h : d.Clean) (hsteps : d.steps ≠ []) :
    ∃ part, (splitOnChar '/' ("/".intercalate d.steps).toList).head? = some part ∧ part ≠ [] ∧
      part ≠ ['.'] := by
  have hsplit : splitOnChar '/' ("/".intercalate d.steps).toList = d.steps.map String.toList := by
    rw [String.toList_intercalate]
    exact splitOnChar_intercalate (by simpa using hsteps) h.slash_notMem
  obtain ⟨text,htext⟩ := Option.ne_none_iff_exists'.mp (mt List.head?_eq_none_iff.mp hsteps)
  refine ⟨text.toList,?_,h.head_steps htext⟩
  rw [hsplit,List.head?_map,htext]
  rfl

/-- The steps of a clean path by their names. -/
lemma Direct.Clean.components {d : Direct} (h : d.Clean) :
    d.toPath.components = (if d.absolute then [.root] else []) ++
      (List.replicate d.ups .parent ++ d.reversed.reverse.map .name) := by
  rw [← h.ofParts]
  cases habsolute : d.absolute with
  | true =>
    have htext : d.toPath.text.toList = '/' :: ("/".intercalate d.steps).toList := by
      simp [Direct.toPath,habsolute]
    have hroot : d.toPath.isAbsolute := by simp [isAbsolute,htext]
    rw [Path.components,if_pos hroot,htext]
    rfl
  | false =>
    have htext : d.toPath.text = "/".intercalate d.steps := by simp [Direct.toPath,habsolute]
    by_cases hsteps : d.steps = []
    · rw [hsteps] at htext ⊢
      simp [Path.components,isAbsolute,htext,splitOnChar,Component.ofParts]
    obtain ⟨part,hpart,hne,hcurrent⟩ := h.head_splitOnChar hsteps
    have hroot : ¬d.toPath.isAbsolute := by
      intro hroot
      obtain ⟨rest,hrest⟩ : ∃ rest, ("/".intercalate d.steps).toList = '/' :: rest := by
        simp only [isAbsolute,htext,beq_iff_eq] at hroot
        exact List.head?_eq_some_iff.mp hroot
      rw [hrest] at hpart
      exact hne (Option.some.inj hpart).symm
    have hdot : ¬((splitOnChar '/' d.toPath.text.toList).head? == some ['.']) := by
      rw [htext,hpart]
      simpa using hcurrent
    rw [Path.components,if_neg hroot,if_neg hdot,htext]
    rfl

lemma Direct.Clean.head_components {d : Direct} (h : d.Clean) :
    d.toPath.components.head? = some .root ↔ d.absolute := by
  rw [h.components]
  cases d.absolute with
  | true => simp
  | false =>
    cases d.ups with
    | succ ups => simp [List.replicate_succ]
    | zero => cases d.reversed.reverse <;> simp

lemma foldl_names (d : Direct) (texts : List String) :
    (texts.map Component.name).foldl Direct.step d = { d with reversed := texts.reverse ++ d.reversed } := by
  induction texts generalizing d with
  | nil => rfl
  | cons text rest ih =>
    rw [List.map_cons,List.foldl_cons,ih]
    simp [Direct.step]

lemma foldl_ups (ups count : Nat) :
    (List.replicate count Component.parent).foldl Direct.step { ups } = { ups := ups + count } := by
  induction count generalizing ups with
  | zero => rfl
  | succ count ih =>
    rw [List.replicate_succ,List.foldl_cons]
    change List.foldl Direct.step { ups := ups + 1 } _ = _
    rw [ih,Nat.add_right_comm,Nat.add_assoc]

/-- A clean path is what its text says. -/
lemma Direct.Clean.direct_toPath {d : Direct} (h : d.Clean) : d.toPath.direct = d := by
  rw [direct,h.components,List.foldl_append,List.foldl_append,foldl_names]
  cases habsolute : d.absolute with
  | true =>
    have hups := h.ups habsolute
    cases d
    simp_all [Direct.step]
  | false =>
    cases d
    simp_all [foldl_ups]

/-- A path is clean once it has been cleaned. -/
theorem clean_clean (p : Path) : p.clean.clean = p.clean := by
  rw [clean,clean,(clean_direct p).direct_toPath]

/-- Only the first slash makes a difference to where the steps of a path start. -/
lemma direct_eq (p : Path) : p.direct =
    (Component.ofParts (splitOnChar '/' p.text.toList)).foldl Direct.step { absolute := p.isAbsolute } := by
  unfold direct components
  cases habsolute : p.isAbsolute with
  | true => rfl
  | false =>
    simp only [Bool.false_eq_true,if_false]
    split <;> rfl

lemma absolute_step {c : Component} (h : c ≠ .root) (d : Direct) : (d.step c).absolute = d.absolute := by
  cases c with
  | root => exact absurd rfl h
  | current => rfl
  | name text => rfl
  | parent =>
    simp only [Direct.step]
    split
    · rfl
    · split <;> rfl

/-- No step leads away from the root, or to it. -/
lemma absolute_foldl {steps : List Component} (h : .root ∉ steps) (d : Direct) :
    (steps.foldl Direct.step d).absolute = d.absolute := by
  induction steps generalizing d with
  | nil => rfl
  | cons c rest ih =>
    rw [List.mem_cons,not_or] at h
    rw [List.foldl_cons,ih h.2,absolute_step (Ne.symm h.1)]

lemma absolute_direct_eq (p : Path) : p.direct.absolute = p.isAbsolute := by
  rw [direct_eq,absolute_foldl (root_notMem_ofParts _)]

lemma absolute_direct {p : Path} (h : p.isAbsolute) : p.direct.absolute := by rwa [absolute_direct_eq]

lemma isAbsolute_clean {p : Path} (h : p.isAbsolute) : p.clean.isAbsolute := by
  simp [clean,Direct.toPath,absolute_direct h,isAbsolute]

/-- A clean path is as absolute as the path was. -/
lemma isAbsolute_clean_iff (p : Path) : p.clean.isAbsolute ↔ p.isAbsolute := by
  refine ⟨fun h => ?_,isAbsolute_clean⟩
  have hroot : p.clean.components.head? = some .root := by
    rw [components,if_pos h]
    rfl
  rw [← absolute_direct_eq]
  exact (clean_direct p).head_components.mp hroot

/-- The working directory is absolute, or empty where it is not known. -/
def IsWorkingDirectory (p : Path) : Prop := p.isAbsolute ∨ p.isEmpty

lemma isAbsolute_join {p : Path} (h : p.isAbsolute) (q : Path) : (p.join q).isAbsolute := by
  have happend (text : String) : (Path.mk (p.text ++ text)).isAbsolute := by
    simp only [isAbsolute,String.toList_append,beq_iff_eq] at h ⊢
    rw [List.head?_append,h]
    rfl
  unfold join
  split
  · assumption
  split
  · exact happend q.text
  · rw [String.append_assoc]
    exact happend ("/" ++ q.text)

lemma join_of_isEmpty {directory : Path} (h : directory.isEmpty) (p : Path) : directory.join p = p := by
  have htext : directory.text = "" := String.isEmpty_iff.mp h
  unfold join
  rw [h,Bool.true_or,if_pos rfl,htext,String.empty_append]
  exact ite_self _

/-- A path that has been seen from the working directory is seen as it is. -/
theorem absolute_absolute {p here : Path} (h : here.IsWorkingDirectory) :
    (p.absolute here).absolute here = p.absolute here := by
  by_cases hfinal : p.clean.isAbsolute || p.clean.isEmpty
  · simp only [absolute,hfinal,if_true,clean_clean]
  rw [show p.absolute here = (here.join p.clean).clean by simp only [absolute]; rw [if_neg hfinal]]
  obtain habsolute | hempty := h
  · have hresult := isAbsolute_clean (isAbsolute_join habsolute p.clean)
    simp only [absolute,clean_clean,hresult,Bool.true_or,if_true]
  · simp only [join_of_isEmpty hempty,clean_clean,absolute]
    rw [if_neg hfinal]

section

/-! Paths behind directories. The steps of a path are taken from where those of the directory lead. -/

variable {p q : Path}

lemma eq_of_toList (h : p.text.toList = q.text.toList) : p = q := by
  obtain ⟨text⟩ := p
  obtain ⟨other⟩ := q
  exact congrArg Path.mk (String.toList_inj.mp h)

lemma text_join (hq : ¬q.isAbsolute) (hp : ¬p.isEmpty) : ((p.join q).text.toList =
    p.text.toList ++ q.text.toList ∧ p.text.toList.getLast? = some '/') ∨
      (p.join q).text.toList = p.text.toList ++ '/' :: q.text.toList ∧ p.text.toList.getLast? ≠ some '/' := by
  unfold join
  rw [if_neg hq]
  by_cases hlast : p.text.toList.getLast? = some '/'
  · rw [if_pos (by simp [hlast])]
    exact .inl ⟨by simp,hlast⟩
  · rw [if_neg (by simp [hlast,hp])]
    exact .inr ⟨by simp,hlast⟩

lemma toList_ne_nil (hp : ¬p.isEmpty) : p.text.toList ≠ [] := by
  intro h
  refine hp (String.isEmpty_iff.mpr ?_)
  simpa using h

lemma isAbsolute_join_eq (hq : ¬q.isAbsolute) (hp : ¬p.isEmpty) : (p.join q).isAbsolute = p.isAbsolute := by
  obtain ⟨c,rest,htext⟩ := List.exists_cons_of_ne_nil (toList_ne_nil hp)
  unfold isAbsolute
  obtain ⟨h,-⟩ | ⟨h,-⟩ := text_join hq hp <;> rw [h,htext] <;> rfl

/-- A path behind another one goes on where that one ends. -/
lemma direct_join (hq : ¬q.isAbsolute) (p : Path) : (p.join q).direct =
    (Component.ofParts (splitOnChar '/' q.text.toList)).foldl Direct.step p.direct := by
  by_cases hp : p.isEmpty
  · have hstart : p.direct = { absolute := q.isAbsolute } := by
      rw [direct,components_of_isEmpty hp,Bool.eq_false_iff.mpr hq]
      rfl
    rw [join_of_isEmpty hp,hstart,← direct_eq]
  have hsteps : Component.ofParts (splitOnChar '/' (p.join q).text.toList) =
      Component.ofParts (splitOnChar '/' p.text.toList) ++ Component.ofParts (splitOnChar '/' q.text.toList) := by
    obtain ⟨htext,hslash⟩ | ⟨htext,-⟩ := text_join hq hp
    · obtain ⟨front,hfront⟩ := List.getLast?_eq_some_iff.mp hslash
      rw [htext,hfront,List.append_assoc,List.singleton_append,splitOnChar_append_cons,splitOnChar_append_cons,
        Component.ofParts_append,Component.ofParts_append,List.append_assoc]
      rfl
    · rw [htext,splitOnChar_append_cons,Component.ofParts_append]
  rw [direct_eq,direct_eq p,isAbsolute_join_eq hq hp,hsteps,List.foldl_append]

end

end Path
end QmlCodeModel
