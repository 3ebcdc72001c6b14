import Mathlib.Tactic.Common
import QmlCodeModel.Halving

/-! Halving finds the last element that passes a test. -/
namespace QmlCodeModel

variable {α : Type} (test : α → Bool) (xs : List α)

def Passes (i : Nat) : Prop := xs[i]?.any test = true

variable {test xs}

/-- What halving finds is the last that passes, if the first does. -/
lemma halve_last (base size : Nat) (hdown : ∀ i j, i ≤ j → Passes test xs j → Passes test xs i)
    (hbase : base = 0 ∨ Passes test xs base) (hstop : ∀ i, base + size ≤ i → ¬Passes test xs i) :
    (halve test xs base size = 0 ∨ Passes test xs (halve test xs base size)) ∧
      ∀ i, halve test xs base size < i → ¬Passes test xs i := by
  fun_induction halve test xs base size with
  | case1 base size hsize => exact ⟨hbase,fun i hi => hstop i (by omega)⟩
  | case2 base size hsize half ih =>
    have hhalf : half = size / 2 := rfl
    refine ih ?_ fun i hi => ?_
    · split
      · exact .inr ‹_›
      · exact hbase
    · split at hi
      · exact hstop i (by omega)
      · rename_i hfails
        exact fun hpasses => hfails (hdown _ i (by omega) hpasses)

/-- Where those that pass stand in front, the last of them is found. -/
lemma halve_append {ys : List α} {first : α} (hfront : ∀ x ∈ first :: xs, test x) (hback : ∀ y ∈ ys, ¬test y) :
    halve test (first :: xs ++ ys) 0 (first :: xs ++ ys).length = xs.length := by
  have hpasses (i : Nat) : Passes test (first :: xs ++ ys) i ↔ i ≤ xs.length := by
    unfold Passes
    obtain hi | hi := Nat.lt_or_ge i (first :: xs).length
    · rw [List.getElem?_append_left hi,List.getElem?_eq_getElem hi,Option.any_some]
      exact iff_of_true (hfront _ (List.getElem_mem hi)) (Nat.le_of_lt_succ hi)
    · rw [List.getElem?_append_right hi]
      refine iff_of_false (fun hpasses => ?_) (Nat.not_le_of_lt hi)
      obtain ⟨y,hy,htest⟩ := (Option.any_eq_true _ _).mp hpasses
      exact hback y (List.mem_of_getElem? hy) htest
  obtain ⟨hfound,hlast⟩ := halve_last 0 (first :: xs ++ ys).length
    (fun i j hij hj => (hpasses i).mpr (Nat.le_trans hij ((hpasses j).mp hj))) (.inl rfl) fun i hi hpass => by
      have hle := (hpasses i).mp hpass
      simp only [List.cons_append,List.length_cons,List.length_append] at hi
      omega
  refine Nat.le_antisymm (hfound.elim (fun hzero => Nat.le_trans (Nat.le_of_eq hzero) (Nat.zero_le _)) (hpasses _).mp) ?_
  exact Nat.le_of_not_lt fun hlt => hlast xs.length hlt ((hpasses _).mpr (Nat.le_refl _))

end QmlCodeModel
