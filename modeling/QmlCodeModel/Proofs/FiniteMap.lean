import Mathlib.Data.List.Induction
import QmlCodeModel.FiniteMap

/-! The keys of finite maps, and maps that are made by giving keys values one after the other. -/
namespace QmlCodeModel

namespace FiniteMap

variable {κ α : Type} [DecidableEq κ]

lemma mem_keys_iff {m : FiniteMap κ α} {key : κ} : key ∈ m.keys ↔ (m.get? key).isSome := by
  unfold keys get?
  induction m.entries with
  | nil => simp
  | cons e rest ih =>
    rw [List.map_cons,List.mem_cons,List.lookup_cons,ih]
    cases h : key == e.1 <;> simp_all

lemma keys_insert (m : FiniteMap κ α) (key : κ) (value : α) :
    (m.insert key value).keys = if key ∈ m.keys then m.keys else m.keys ++ [key] := by
  unfold insert keys
  split
  · exact map_fst_replace key value m.entries
  · exact List.map_append

lemma contains_iff {m : FiniteMap κ α} {key : κ} : m.contains key = true ↔ key ∈ m.keys :=
  mem_keys_iff.symm

omit [DecidableEq κ] in
lemma size_eq (m : FiniteMap κ α) : m.size = m.keys.length := (List.length_map _).symm

/-- Gives keys values one after the other. -/
def ofLog (log : List (κ × α)) : FiniteMap κ α := log.foldl (fun m e => m.insert e.1 e.2) ⟨[], List.nodup_nil⟩

lemma ofLog_concat (log : List (κ × α)) (e : κ × α) : ofLog (log ++ [e]) = (ofLog log).insert e.1 e.2 := by
  rw [ofLog,List.foldl_append]
  rfl

/-- The last value of a key counts. -/
lemma get?_ofLog (log : List (κ × α)) (key : κ) :
    (ofLog log).get? key = (log.reverse.find? (·.1 = key)).map Prod.snd := by
  induction log using List.reverseRecOn with
  | nil => rfl
  | append_singleton log e ih =>
    rw [ofLog_concat,get?_insert,ih,List.reverse_append]
    by_cases h : key = e.1
    · simp [h]
    · simp [h,Ne.symm h]

/-- The first place of a key counts. -/
lemma keys_ofLog (log : List (κ × α)) : (ofLog log).keys = (log.map Prod.fst).eraseDups := by
  induction log using List.reverseRecOn with
  | nil => rfl
  | append_singleton log e ih =>
    rw [ofLog_concat,keys_insert,ih,List.map_append,List.eraseDups_append]
    by_cases h : e.1 ∈ log.map Prod.fst
    · rw [if_pos (List.mem_eraseDups.mpr h)]
      simp [List.removeAll,h]
    · rw [if_neg fun hmem => h (List.mem_eraseDups.mp hmem)]
      simp [List.removeAll,h,List.eraseDups_cons]

end FiniteMap

end QmlCodeModel
