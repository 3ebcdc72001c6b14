import Mathlib.Tactic.Common
import QmlCodeModel.Text.CharClass
import QmlCodeModel.Text.CharClass.LetterCase
import QmlCodeModel.Token.Reader

/-! Classes of characters that have no character in common. Two lists of flips are run through together,
which is enough to compare the classes at all characters. -/
namespace QmlCodeModel

namespace CharClass

/-- Membership at a code point, where it starts as the first argument. -/
def containsFrom (inside : Bool) (flips : List Nat) (n : Nat) : Bool :=
  inside ^^ ((flips.takeWhile (· ≤ n)).length % 2 == 1)

lemma containsFrom_nil (inside : Bool) (n : Nat) : containsFrom inside [] n = inside := by
  simp [containsFrom]

lemma containsFrom_of_lt {x n : Nat} (inside : Bool) (flips : List Nat) (h : n < x) :
    containsFrom inside (x :: flips) n = inside := by
  simp [containsFrom,Nat.not_le.mpr h]

lemma containsFrom_of_le {x n : Nat} (inside : Bool) (flips : List Nat) (h : x ≤ n) :
    containsFrom inside (x :: flips) n = containsFrom (!inside) flips n := by
  simp only [containsFrom,h,decide_true,List.takeWhile_cons_of_pos,List.length_cons]
  obtain h | h := Nat.mod_two_eq_zero_or_one (flips.takeWhile (· ≤ n)).length
  · simp [Nat.add_mod,h]
  · simp [Nat.add_mod,h]

/-- Whether two classes, of which not both contain what comes before their flips, stay apart. The
first argument bounds the number of flips. -/
def apart : Nat → Bool → Bool → List Nat → List Nat → Bool
  | 0, _, _, _, _ => false
  | _ + 1, _, _, [], [] => true
  | bound + 1, a, b, _ :: xs, [] => !(!a && b) && apart bound (!a) b xs []
  | bound + 1, a, b, [], _ :: ys => !(a && !b) && apart bound a (!b) [] ys
  | bound + 1, a, b, x :: xs, y :: ys =>
    if x < y then !(!a && b) && apart bound (!a) b xs (y :: ys)
    else if y < x then !(a && !b) && apart bound a (!b) (x :: xs) ys
    else !(!a && !b) && apart bound (!a) (!b) xs ys

lemma not_both_of_apart {bound : Nat} {a b : Bool} {xs ys : List Nat} (h : apart bound a b xs ys)
    (hab : ¬(a ∧ b)) (n : Nat) : ¬(containsFrom a xs n ∧ containsFrom b ys n) := by
  fun_induction apart bound a b xs ys with
  | case1 => exact absurd h Bool.false_ne_true
  | case2 => simpa only [containsFrom_nil] using hab
  | case3 bound a b x xs ih =>
    simp only [Bool.and_eq_true,Bool.not_eq_true',Bool.and_eq_false_iff] at h
    obtain hlt | hle := Nat.lt_or_ge n x
    · rwa [containsFrom_of_lt a xs hlt,containsFrom_nil]
    · rw [containsFrom_of_le a xs hle]
      exact ih h.2 (by simpa [or_iff_not_imp_left] using h.1)
  | case4 bound a b y ys ih =>
    simp only [Bool.and_eq_true,Bool.not_eq_true',Bool.and_eq_false_iff] at h
    obtain hlt | hle := Nat.lt_or_ge n y
    · rwa [containsFrom_of_lt b ys hlt,containsFrom_nil]
    · rw [containsFrom_of_le b ys hle]
      exact ih h.2 (by simpa [or_iff_not_imp_left] using h.1)
  | case5 bound a b x xs y ys hxy ih =>
    simp only [Bool.and_eq_true,Bool.not_eq_true',Bool.and_eq_false_iff] at h
    obtain hlt | hle := Nat.lt_or_ge n x
    · rwa [containsFrom_of_lt a xs hlt,containsFrom_of_lt b ys (Nat.lt_trans hlt hxy)]
    · rw [containsFrom_of_le a xs hle]
      exact ih h.2 (by simpa [or_iff_not_imp_left] using h.1)
  | case6 bound a b x xs y ys hxy hyx ih =>
    simp only [Bool.and_eq_true,Bool.not_eq_true',Bool.and_eq_false_iff] at h
    obtain hlt | hle := Nat.lt_or_ge n y
    · rwa [containsFrom_of_lt b ys hlt,containsFrom_of_lt a xs (Nat.lt_trans hlt hyx)]
    · rw [containsFrom_of_le b ys hle]
      exact ih h.2 (by simpa [or_iff_not_imp_left] using h.1)
  | case7 bound a b x xs y ys hxy hyx ih =>
    simp only [Bool.and_eq_true,Bool.not_eq_true',Bool.and_eq_false_iff] at h
    have hsame : x = y := by omega
    subst hsame
    obtain hlt | hle := Nat.lt_or_ge n x
    · rwa [containsFrom_of_lt a xs hlt,containsFrom_of_lt b ys hlt]
    · rw [containsFrom_of_le a xs hle,containsFrom_of_le b ys hle]
      exact ih h.2 (by simpa [or_iff_not_imp_left] using h.1)

/-- Classes that stay apart from the start have no character in common. -/
theorem not_contains_of_apart {s t : CharClass}
    (h : apart (s.flips.length + t.flips.length + 1) false false s.flips t.flips) {c : Char}
    (hs : s.contains c) : t.contains c = false := by
  have := not_both_of_apart h (by simp) c.toNat
  simp only [containsFrom,Bool.false_bne,not_and,Bool.not_eq_true] at this
  exact this hs

lemma not_lowercase_of_uppercase {c : Char} (h : uppercase.contains c) : lowercase.contains c = false :=
  not_contains_of_apart (by decide +kernel) h

end CharClass

/-- A text does not start with a small and with a capital letter. -/
lemma not_startsLowercase {text : String} (h : startsUppercase text) : startsLowercase text = false := by
  unfold startsUppercase startsLowercase at *
  cases hhead : text.toList.head? with
  | none => rfl
  | some c =>
    rw [hhead] at h
    exact CharClass.not_lowercase_of_uppercase h

/-- No name starts with a character that ends a line. -/
lemma not_isLineTerminator_of_isNameStart {c : Char} (h : isNameStart c) : isLineTerminator c = false := by
  rw [Bool.eq_false_iff]
  intro hline
  simp only [isLineTerminator,Bool.or_eq_true,beq_iff_eq] at hline
  obtain ((rfl | rfl) | rfl) | rfl := hline <;> exact absurd h (by decide +kernel)

/-- No name starts with a blank. -/
lemma not_blank_of_isNameStart {c : Char} (h : isNameStart c) : CharClass.blank.contains c = false := by
  simp only [isNameStart,Bool.or_eq_true,beq_iff_eq] at h
  obtain (h | rfl) | rfl := h
  · exact CharClass.not_contains_of_apart (by decide +kernel) h
  · decide
  · decide

end QmlCodeModel
