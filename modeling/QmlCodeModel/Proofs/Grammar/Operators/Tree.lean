import QmlCodeModel.Grammar.Word
import QmlCodeModel.Proofs.Sketch.Basic
import QmlCodeModel.Proofs.Tree.Objects

/-! Operators between operands. A row of operands with operators between them can be grouped into many trees,
and how tightly the operators bind leaves one of them. -/
namespace QmlCodeModel

def binaryWords : List String := ["instanceof","in"]

/-- The operators between two operands, punctuators and words. -/
def binaryOperators : List String := binaryPunctuators.map Prod.fst ++ binaryWords

structure BinaryOperator where
  text : String
  listed : text ∈ binaryOperators := by decide
  deriving DecidableEq

namespace BinaryOperator

/-- How tightly an operator binds its operands. -/
def precedence (op : BinaryOperator) : Nat := (binaryPunctuators.lookup op.text).getD wordPrecedence

/-- Powers group to the right, and all other operators to the left. -/
def isPower (op : BinaryOperator) : Bool := op.text == "**"

/-- What an operator on top of the left operand has to bind at least. -/
def leftLevel (op : BinaryOperator) : Nat := if op.isPower then op.precedence + 1 else op.precedence

/-- What an operator on top of the right operand has to bind at least. -/
def rightLevel (op : BinaryOperator) : Nat := if op.isPower then op.precedence else op.precedence + 1

variable {op inner : BinaryOperator}

lemma precedence_le_leftLevel : op.precedence ≤ op.leftLevel := by
  unfold leftLevel
  split <;> omega

lemma precedence_le_rightLevel : op.precedence ≤ op.rightLevel := by
  unfold rightLevel
  split <;> omega

lemma precedence_pos (op : BinaryOperator) : 0 < op.precedence := by
  have hall : ∀ text ∈ binaryOperators, 0 < (binaryPunctuators.lookup text).getD wordPrecedence := by decide
  exact hall op.text op.listed

lemma precedence_le (op : BinaryOperator) : op.precedence ≤ 12 := by
  have hall : ∀ text ∈ binaryOperators, (binaryPunctuators.lookup text).getD wordPrecedence ≤ 12 := by decide
  exact hall op.text op.listed

/-- Nothing but a power binds as tightly as one. -/
lemma isPower_iff (op : BinaryOperator) : op.isPower ↔ op.precedence = 12 := by
  have hall : ∀ text ∈ binaryOperators,
      text == "**" ↔ (binaryPunctuators.lookup text).getD wordPrecedence = 12 := by decide
  exact hall op.text op.listed

/-- Of two operators, one behind the other, either the first belongs into the left operand of the second or
the second into the right operand of the first. -/
lemma leftLevel_le_iff : inner.leftLevel ≤ op.precedence ↔ inner.precedence < op.rightLevel := by
  have hop := op.isPower_iff
  have hinner := inner.isPower_iff
  have := op.precedence_le
  have := inner.precedence_le
  unfold leftLevel rightLevel
  split <;> split <;> grind

end BinaryOperator

/-- Words that are names in some places and not in others. -/
def contextualWords : List String := ["yield","await","async","of"]

/-- A name that is an operand wherever it stands. -/
structure Operand extends Name where
  plain : text ∉ contextualWords := by decide
  deriving DecidableEq

lemma Operand.text_ne (x : Operand) {text : String} (h : text ∈ contextualWords) : (x.text == text) = false := by
  rw [beq_eq_false_iff_ne]
  rintro rfl
  exact x.plain h

/-- Operands with operators between them. -/
@[ext]
structure OperatorRow where
  first : Operand
  later : List (BinaryOperator × Operand) := []
  deriving DecidableEq

namespace OperatorRow

def words (row : OperatorRow) : List String :=
  row.first.text :: row.later.flatMap fun (op,x) => [op.text,x.text]

/-- A row as it is written, with a blank on both sides of each operator. -/
def text (row : OperatorRow) : String := " ".intercalate row.words

end OperatorRow

inductive OperatorTree
  | operand (x : Operand)
  | operation (op : BinaryOperator) (left right : OperatorTree)
  deriving DecidableEq

namespace OperatorTree

/-- The operator that is applied last. -/
def top? : OperatorTree → Option BinaryOperator
  | operand _ => none
  | operation op _ _ => some op

/-- The operands and operators of a tree from left to right. -/
def row : OperatorTree → OperatorRow
  | operand x => ⟨x,[]⟩
  | operation op left right => ⟨left.row.first,left.row.later ++ (op,right.row.first) :: right.row.later⟩

/-- An operand is an operation only if its operator binds tighter than the one that it is an operand of. One
that binds as tightly may stand on the left, and for a power on the right. -/
inductive Grouped : OperatorTree → Prop
  | operand (x : Operand) : Grouped (operand x)
  | operation {op : BinaryOperator} {left right : OperatorTree} (hleft : left.Grouped) (hright : right.Grouped)
      (hleftTop : ∀ inner ∈ left.top?, op.leftLevel ≤ inner.precedence)
      (hrightTop : ∀ inner ∈ right.top?, op.rightLevel ≤ inner.precedence) : Grouped (operation op left right)

/-- In a grouped tree no operator binds less than the one on top. -/
lemma Grouped.le_of_mem {t : OperatorTree} {level : Nat} (h : t.Grouped)
    (htop : ∀ inner ∈ t.top?, level ≤ inner.precedence) : ∀ p ∈ t.row.later, level ≤ p.1.precedence := by
  induction h generalizing level with
  | operand x => exact nofun
  | @operation op left right _ _ hleftTop hrightTop ihleft ihright =>
    have hop : level ≤ op.precedence := htop op rfl
    intro p hp
    obtain hp | rfl | hp : p ∈ left.row.later ∨ p = (op,right.row.first) ∨ p ∈ right.row.later := by
      simpa [row] using hp
    · refine ihleft (fun inner hinner => ?_) p hp
      exact (hop.trans BinaryOperator.precedence_le_leftLevel).trans (hleftTop inner hinner)
    · exact hop
    · refine ihright (fun inner hinner => ?_) p hp
      exact (hop.trans BinaryOperator.precedence_le_rightLevel).trans (hrightTop inner hinner)

/-- Two grouped operations with the same row are divided at the same operator. -/
lemma Grouped.not_apart {op other : BinaryOperator} {left right : OperatorTree} {x y : Operand}
    (hleft : left.Grouped) (hright : right.Grouped)
    (hleftTop : ∀ inner ∈ left.top?, other.leftLevel ≤ inner.precedence)
    (hrightTop : ∀ inner ∈ right.top?, op.rightLevel ≤ inner.precedence)
    (hop : (op,x) ∈ left.row.later) : (other,y) ∉ right.row.later :=
  fun hother => Nat.not_lt.mpr (hright.le_of_mem hrightTop _ hother)
    (BinaryOperator.leftLevel_le_iff.mp (hleft.le_of_mem hleftTop _ hop))

/-- A list is divided in the same way by two members neither of which stands behind the other. -/
lemma divided_unique {α : Type} {before behind before' behind' : List α} {a b : α}
    (h : before ++ a :: behind = before' ++ b :: behind') (ha : a ∈ before' → b ∉ behind)
    (hb : b ∈ before → a ∉ behind') : before = before' ∧ a = b ∧ behind = behind' := by
  obtain ⟨between,rfl,hrest⟩ | ⟨between,rfl,hrest⟩ := List.append_eq_append_iff.mp h
  all_goals
    cases between with
    | nil => simpa [eq_comm] using hrest
    | cons c between =>
      obtain ⟨rfl,rfl⟩ := List.cons.inj hrest
      simp at ha hb

/-- A row is grouped in one way only. -/
theorem eq_of_row {t u : OperatorTree} (ht : t.Grouped) (hu : u.Grouped) (h : t.row = u.row) : t = u := by
  induction ht generalizing u with
  | operand x =>
    cases hu with
    | operand y =>
      have hxy : x = y := congrArg OperatorRow.first h
      rw [hxy]
    | operation => simp [row] at h
  | operation hleft hright hleftTop hrightTop ihleft ihright =>
    cases hu with
    | operand y => simp [row] at h
    | operation hleft' hright' hleftTop' hrightTop' =>
      obtain ⟨hfirst,hlater⟩ := OperatorRow.ext_iff.mp h
      obtain ⟨hbefore,hmiddle,hbehind⟩ := divided_unique hlater
        (hleft'.not_apart hright hleftTop' hrightTop) (hleft.not_apart hright' hleftTop hrightTop')
      obtain ⟨rfl,hnext⟩ := Prod.mk.inj hmiddle
      rw [ihleft hleft' (OperatorRow.ext hfirst hbefore),ihright hright' (OperatorRow.ext hnext hbehind)]

end OperatorTree

namespace Kind

def isBinary {α : Type} : Kind α → Bool
  | .binary _ _ _ => true
  | _ => false

end Kind

namespace Node

/-- The node is this tree of operations. -/
inductive Depicts : Node → OperatorTree → Prop
  | operand {n : Node} {x : Operand} (h : n.kind = .identifier x.text) : Depicts n (.operand x)
  | operation {n left right : Node} {op : BinaryOperator} {l r : OperatorTree}
      (h : n.kind = .binary op.text left right) (hleft : left.Depicts l) (hright : right.Depicts r) :
      Depicts n (.operation op l r)

/-- There are as many operations in a tree as there are operators in its row. -/
lemma Depicts.countP_walk {n : Node} {t : OperatorTree} (h : n.Depicts t) :
    (n.walk.countP fun x => x.kind.isBinary) = t.row.later.length := by
  induction h with
  | @operand n x h =>
    have hchildren : n.children = [] := by rw [children,h]; rfl
    simp [walk_eq n,hchildren,h,Kind.isBinary,OperatorTree.row]
  | @operation n left right op l r h _ _ ihleft ihright =>
    have hchildren : n.children = [left,right] := by rw [children,h]; rfl
    have hbinary : n.kind.isBinary := by rw [h]; rfl
    simp only [walk_eq n,hchildren,List.countP_cons,List.flatMap_cons,List.flatMap_nil,List.countP_append,
      ihleft,ihright,hbinary,OperatorTree.row,List.length_append,List.length_cons]
    simp
    omega

end Node

end QmlCodeModel
