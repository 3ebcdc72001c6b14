import Mathlib.Data.List.Infix
import QmlCodeModel.Config.Basic

/-! A pattern of a directory chooses a file by the whole names of the directories on the way to it. -/
namespace QmlCodeModel

lemma occursIn_iff {part text : List Char} : occursIn part text = true ↔ part <:+: text := by
  induction text with
  | nil => simp [occursIn]
  | cons c rest ih => rw [occursIn,Bool.or_eq_true,List.isPrefixOf_iff_prefix,ih,List.infix_cons_iff]

/-- Two names that end where the first slash stands are one name. -/
lemma append_slash_prefix_iff {name step : List Char} (hname : '/' ∉ name) (hstep : '/' ∉ step)
    (rest : List Char) : name ++ ['/'] <+: step ++ '/' :: rest ↔ name = step := by
  induction name generalizing step with
  | nil =>
    cases step with
    | nil => simp
    | cons c step => simpa using fun hc : '/' = c => absurd hc (by simp_all)
  | cons c name ih =>
    simp only [List.mem_cons,not_or] at hname
    cases step with
    | nil => simpa using fun hc : c = '/' => absurd hc.symm hname.1
    | cons e step =>
      simp only [List.mem_cons,not_or] at hstep
      rw [List.cons_append,List.cons_append,List.cons_prefix_cons,ih hname.2 hstep.2,List.cons.injEq]

/-- What begins with a slash cannot begin inside a step without one. -/
lemma slash_infix_append_iff {step : List Char} (hstep : '/' ∉ step) (name rest : List Char) :
    '/' :: name <:+: step ++ rest ↔ '/' :: name <:+: rest := by
  induction step with
  | nil => rfl
  | cons c step ih =>
    simp only [List.mem_cons,not_or] at hstep
    rw [List.cons_append,List.infix_cons_iff,List.cons_prefix_cons,ih hstep.2]
    exact or_iff_right fun h => hstep.1 h.1

namespace PathPattern

/-- The pattern is one of those in which a user writes the name of a directory. -/
inductive NamesDirectory (directory : String) : String → Prop
  | slash : NamesDirectory directory (directory ++ "/")
  | stars : NamesDirectory directory ("**/" ++ directory ++ "/**")

lemma NamesDirectory.reading {directory pattern : String} (h : NamesDirectory directory pattern) :
    ofText pattern.toList = .below directory.toList := by
  cases h with
  | slash =>
    have hend : ['/'].isSuffixOf? (directory.toList ++ ['/']) = some directory.toList :=
      List.isSuffixOf?_eq_some_iff_append_eq.mpr rfl
    rw [String.toList_append,PathPattern.ofText]
    simp only [show "/".toList = ['/'] from rfl,hend]
  | stars =>
    have hend : ['/'].isSuffixOf? ("**/".toList ++ directory.toList ++ "/**".toList) = none := by
      refine Option.eq_none_iff_forall_ne_some.mpr fun front hfront => ?_
      have hlast := congrArg List.getLast? (List.isSuffixOf?_eq_some_iff_append_eq.mp hfront)
      rw [List.getLast?_concat,List.getLast?_append,show "/**".toList = ['/','*','*'] from rfl] at hlast
      simp at hlast
    have hstar : ['*'].isPrefixOf? ("**/".toList ++ directory.toList ++ "/**".toList) =
        some ('*' :: '/' :: (directory.toList ++ "/**".toList)) :=
      List.isPrefixOf?_eq_some_iff_append_eq.mpr rfl
    have hstars : "**/".toList.isPrefixOf? ("**/".toList ++ directory.toList ++ "/**".toList) =
        some (directory.toList ++ "/**".toList) :=
      List.isPrefixOf?_eq_some_iff_append_eq.mpr (List.append_assoc ..).symm
    have hname : "/**".toList.isSuffixOf? (directory.toList ++ "/**".toList) = some directory.toList :=
      List.isSuffixOf?_eq_some_iff_append_eq.mpr rfl
    rw [String.toList_append,String.toList_append,PathPattern.ofText]
    simp only [hend,hstar,hstars,Option.bind_some,hname]
    rfl

/-- A directory is on the way to a file if the path of the file has its name as a step in front of
the last one. -/
lemma admits_below_iff {directory : List Char} (hdirectory : '/' ∉ directory)
    {steps : List (List Char)} (hsteps : ∀ step ∈ steps, '/' ∉ step) :
    (below directory).admits (['/'].intercalate steps) = true ↔ directory ∈ steps.dropLast := by
  rw [admits,Bool.or_eq_true,List.isPrefixOf_iff_prefix,occursIn_iff,List.cons_append]
  induction steps with
  | nil => simp
  | cons step rest ih =>
    have hstep := hsteps step List.mem_cons_self
    cases rest with
    | nil =>
      rw [List.intercalate_singleton]
      refine iff_of_false ?_ List.not_mem_nil
      rintro (h | h) <;> exact hstep (h.subset (by simp))
    | cons next rest =>
      have ih := ih fun s hs => hsteps s (List.mem_cons_of_mem _ hs)
      rw [List.intercalate_cons_cons,List.append_assoc,List.singleton_append,
        append_slash_prefix_iff hdirectory hstep,slash_infix_append_iff hstep,List.infix_cons_iff,
        List.cons_prefix_cons,eq_self,true_and,ih,List.dropLast_cons_of_ne_nil (List.cons_ne_nil _ _),
        List.mem_cons]

/-- A text that can stand between the slashes of a path. -/
def IsStepName (text : String) : Prop := text ≠ "" ∧ '/' ∉ text.toList

lemma NamesDirectory.admits_iff {name pattern : String} (h : NamesDirectory name pattern)
    (hname : IsStepName name) {steps : List String} (hsteps : ∀ step ∈ steps, IsStepName step) :
    (ofText pattern.toList).admits ("/".intercalate steps).toList = true ↔ name ∈ steps.dropLast := by
  have hslash : ∀ step ∈ steps.map String.toList, '/' ∉ step := by
    simpa using fun step hstep => (hsteps step hstep).2
  rw [h.reading,String.toList_intercalate,show "/".toList = ['/'] from rfl,
    admits_below_iff hname.2 hslash,← List.map_dropLast,List.mem_map]
  simp only [String.toList_inj,exists_eq_right]

lemma matchesAny_iff {names patterns : List String} (h : List.Forall₂ NamesDirectory names patterns)
    (hnames : ∀ name ∈ names, IsStepName name) {steps : List String}
    (hsteps : ∀ step ∈ steps, IsStepName step) :
    Config.matchesAny patterns ("/".intercalate steps) = true ↔ ∃ name ∈ names, name ∈ steps.dropLast := by
  induction h with
  | nil => simp [Config.matchesAny]
  | cons hpattern _ ih =>
    rw [List.forall_mem_cons] at hnames
    rw [Config.matchesAny,List.any_cons,Bool.or_eq_true,hpattern.admits_iff hnames.1 hsteps,
      ← Config.matchesAny,ih hnames.2]
    simp

end PathPattern

open PathPattern

/-- A file is left out for a directory on the way to it, and neither for its own name nor for a name
that the given one is only a part of. -/
theorem directory_patterns_iff {steps : List String} (hsteps : ∀ step ∈ steps, IsStepName step) :
    (∀ name pattern, IsStepName name → NamesDirectory name pattern →
      ((ofText pattern.toList).admits ("/".intercalate steps).toList = true ↔ name ∈ steps.dropLast)) ∧
    ∀ (c : Config) (names : List String), (∀ name ∈ names, IsStepName name) →
      List.Forall₂ NamesDirectory names c.indexing.excluded → c.indexing.included = [] →
      Dialect.ofPath ⟨"/".intercalate steps⟩ ≠ .unknown →
      (c.admits ("/".intercalate steps) = true ↔ ∀ name ∈ names, name ∉ steps.dropLast) := by
  refine ⟨fun name pattern hname hpattern => hpattern.admits_iff hname hsteps,?_⟩
  intro c names hnames hexcluded hincluded hdialect
  have hout := matchesAny_iff hexcluded hnames hsteps
  rw [Config.admits,hincluded,List.isEmpty_nil,Bool.true_or,Bool.and_true,Bool.and_eq_true,bne_iff_ne,
    Bool.not_eq_true',Bool.eq_false_iff,ne_eq,ne_eq,hout]
  simpa using fun _ => hdialect

/-- A directory whose name only begins with the one given lets a file pass. -/
theorem directory_patterns_iff_longer_name :
    (∀ step ∈ ["src","targets","Main.qml"], IsStepName step) ∧
    Config.admits { indexing := { excluded := ["target/","**/build/**"] } }
      ("/".intercalate ["src","targets","Main.qml"]) = true := by
  have hsteps : ∀ step ∈ ["src","targets","Main.qml"], IsStepName step := by
    simp [IsStepName]
  have hnames : ∀ name ∈ ["target","build"], IsStepName name := by
    simp [IsStepName]
  have hexcluded : List.Forall₂ NamesDirectory ["target","build"] ["target/","**/build/**"] :=
    .cons .slash (.cons .stars .nil)
  have hdialect : Dialect.ofPath ⟨"/".intercalate ["src","targets","Main.qml"]⟩ ≠ .unknown := by
    decide +kernel
  exact ⟨hsteps,((directory_patterns_iff hsteps).2 _ _ hnames hexcluded rfl hdialect).mpr (by simp)⟩

end QmlCodeModel
