import QmlCodeModel.FileSystem
import QmlCodeModel.Proofs.Path

/-! The absolute path of a location says where it is: it is clean, it leads through the directories around,
and different locations have different paths. -/
namespace QmlCodeModel

instance : DecidablePred Path.IsStep := fun text =>
  decidable_of_iff (text.toList ≠ [] ∧ text.toList ≠ ['.'] ∧ text.toList ≠ ['.','.'] ∧ '/' ∉ text.toList)
    ⟨fun ⟨nonempty,current,parent,slash⟩ => ⟨nonempty,current,parent,slash⟩,
      fun h => ⟨h.nonempty,h.current,h.parent,h.slash⟩⟩

/-- All names on the way to a location can be steps of a path. -/
def Location.Named (l : Location) : Prop := ∀ name ∈ l, Path.IsStep name

namespace Location

instance : DecidablePred Named := fun l => inferInstanceAs (Decidable (∀ name ∈ l, Path.IsStep name))

variable {l k : Location} {name : String}

lemma named_cons : Named (name :: l) ↔ Path.IsStep name ∧ Named l := List.forall_mem_cons

lemma Named.of_suffix (h : Named l) (hk : k <:+ l) : Named k := fun name hname => h name (hk.subset hname)

lemma Named.clean (h : Named l) : (Path.Direct.mk true 0 l).Clean := ⟨fun _ => rfl,h⟩

end Location

namespace FileSystem

open Location

variable {l k : Location} {name : String}

lemma components_pathOf (h : Named l) : (pathOf l).components = .root :: l.reverse.map .name := by
  have hclean := h.clean.components
  exact hclean

lemma clean_pathOf (h : Named l) : (pathOf l).clean = pathOf l := by
  have hdirect := h.clean.direct_toPath
  exact congrArg Path.Direct.toPath hdirect

lemma toList_pathOf (l : Location) :
    (pathOf l).text.toList = '/' :: ['/'].intercalate (l.reverse.map String.toList) := by
  unfold pathOf
  rw [String.toList_append,String.toList_intercalate]
  rfl

lemma isAbsolute_pathOf (l : Location) : (pathOf l).isAbsolute := by
  unfold Path.isAbsolute
  rw [toList_pathOf]
  rfl

lemma isEmpty_pathOf (l : Location) : (pathOf l).isEmpty = false := by
  unfold Path.isEmpty
  rw [Bool.eq_false_iff,Ne,String.isEmpty_iff]
  intro h
  have htext := toList_pathOf l
  rw [h] at htext
  cases htext

/-- The path of a location is the same from everywhere. -/
lemma absolute_pathOf (h : Named l) (here : Path) : (pathOf l).absolute here = pathOf l := by
  unfold Path.absolute
  simp only [clean_pathOf h,isAbsolute_pathOf,Bool.true_or,if_true]

lemma pathOf_injective (hl : Named l) (hk : Named k) (h : pathOf l = pathOf k) : l = k := by
  have hcomponents := congrArg Path.components h
  rw [components_pathOf hl,components_pathOf hk,List.cons.injEq] at hcomponents
  have hnames := (List.map_inj_right fun _ _ => Path.Component.name.inj).mp hcomponents.2
  exact List.reverse_inj.mp hnames

lemma isWithin_pathOf (hl : Named l) (hk : Named k) : (pathOf k).isWithin (pathOf l) ↔ l <:+ k := by
  unfold Path.isWithin
  rw [components_pathOf hl,components_pathOf hk,List.isPrefixOf_iff_prefix,List.cons_prefix_cons]
  rw [List.prefix_map_iff_of_injective fun _ _ => Path.Component.name.inj,List.reverse_prefix]
  simp

lemma fileName?_pathOf (h : Named (name :: l)) : (pathOf (name :: l)).fileName? = some name := by
  unfold Path.fileName?
  rw [components_pathOf h]
  simp [List.getLast?_cons,List.getLast?_append]

lemma intercalate_snoc {parts : List (List Char)} (part : List Char) (hne : parts ≠ []) :
    ['/'].intercalate (parts ++ [part]) = ['/'].intercalate parts ++ '/' :: part := by
  induction parts with
  | nil => exact absurd rfl hne
  | cons first rest ih =>
    cases rest with
    | nil => simp
    | cons next rest =>
      have ih := ih (List.cons_ne_nil _ _)
      rw [List.cons_append,List.cons_append,List.intercalate_cons_cons,List.intercalate_cons_cons,
        ← List.cons_append,ih]
      simp

lemma toList_pathOf_cons (name : String) (l : Location) : (pathOf (name :: l)).text.toList =
    (if l = [] then [] else (pathOf l).text.toList) ++ '/' :: name.toList := by
  rw [toList_pathOf,List.reverse_cons,List.map_append,List.map_singleton]
  split
  · rename_i h
    subst h
    simp
  · rename_i h
    rw [intercalate_snoc _ (by simpa using h),toList_pathOf]
    rfl

/-- The path of something in a directory. -/
lemma join_pathOf (hname : Path.IsStep name) (h : Named l) :
    (pathOf l).join ⟨name⟩ = pathOf (name :: l) := by
  have hrelative : (Path.mk name).isAbsolute = false := by
    unfold Path.isAbsolute
    rw [beq_eq_false_iff_ne]
    intro hhead
    exact hname.slash (List.mem_of_mem_head? hhead)
  unfold Path.join
  rw [hrelative,isEmpty_pathOf]
  cases l with
  | nil =>
    simp only [Bool.false_eq_true,if_false,Bool.false_or]
    rw [if_pos (by decide)]
    simp [pathOf]
  | cons n around =>
    have hstep := h n List.mem_cons_self
    have hlast : ¬((pathOf (n :: around)).text.toList.getLast? == some '/') := by
      rw [toList_pathOf_cons,List.getLast?_append,List.getLast?_cons_of_ne_nil hstep.nonempty]
      intro hlast
      have hsome := List.getLast?_eq_some_getLast hstep.nonempty
      rw [hsome,Option.some_or] at hlast
      have hmem := List.getLast_mem hstep.nonempty
      rw [Option.some.inj (beq_iff_eq.mp hlast)] at hmem
      exact hstep.slash hmem
    simp only [Bool.false_eq_true,if_false,Bool.false_or]
    rw [if_neg hlast]
    have htext := toList_pathOf_cons name (n :: around)
    rw [if_neg (List.cons_ne_nil _ _)] at htext
    apply congrArg Path.mk
    apply String.toList_injective
    change _ = (pathOf (name :: n :: around)).text.toList
    rw [htext,String.toList_append,String.toList_append,List.append_assoc]
    rfl

end FileSystem

end QmlCodeModel
