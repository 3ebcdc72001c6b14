import Mathlib.Tactic.Common
import QmlCodeModel.Grammar.Word

/-! The brackets of a source: parentheses, square brackets and braces that are tokens. -/
namespace QmlCodeModel

inductive Bracket
  | round | square | curly
  deriving DecidableEq, Repr

namespace Bracket

def all : List Bracket := [.round, .square, .curly]

def opening : Bracket → String
  | .round => "("
  | .square => "["
  | .curly => "\x7b"

def closing : Bracket → String
  | .round => ")"
  | .square => "]"
  | .curly => "\x7d"

/-- What a token does to the brackets that are open, the innermost first. One that closes another
bracket than the innermost has no place. -/
def step (opened : List Bracket) (t : Token) : Option (List Bracket) :=
  match all.find? fun b => t.isPunct b.opening with
  | some b => some (b :: opened)
  | none =>
    match all.find? fun b => t.isPunct b.closing with
    | some b => if opened.head? = some b then some opened.tail else none
    | none => some opened

/-- The brackets that are open after some tokens. -/
def nest (opened : List Bracket) (ts : List Token) : Option (List Bracket) := ts.foldlM step opened

/-- Every bracket is closed by its own kind, in the reverse of the order in which they were opened. -/
def Nested (ts : List Token) : Prop := nest [] ts = some []

instance (ts : List Token) : Decidable (Nested ts) :=
  inferInstanceAs (Decidable (nest [] ts = some []))

lemma nest_append (opened : List Bracket) (ts us : List Token) :
    nest opened (ts ++ us) = (nest opened ts).bind fun later => nest later us :=
  List.foldlM_append

variable {t : Token} {text : String}

lemma isPunct_iff : t.isPunct text ↔ t.kind = .punct ∧ t.text = text := by
  simp [Token.isPunct]

lemma find?_isPunct (f : Bracket → String) (hf : Function.Injective f) (b : Bracket)
    (h : t.isPunct (f b)) : all.find? (fun b => t.isPunct (f b)) = some b := by
  obtain ⟨hkind,htext⟩ := isPunct_iff.mp h
  have htest (c : Bracket) : t.isPunct (f c) = decide (b = c) := by
    rw [Bool.eq_iff_iff,isPunct_iff,htext]
    simp [hkind,hf.eq_iff]
  simp only [htest]
  cases b <;> rfl

lemma opening_injective : Function.Injective opening := by
  intro b c
  cases b <;> cases c <;> decide

lemma closing_injective : Function.Injective closing := by
  intro b c
  cases b <;> cases c <;> decide

lemma step_of_opening (b : Bracket) (opened : List Bracket) (h : t.isPunct b.opening) :
    step opened t = some (b :: opened) := by
  simp only [step,find?_isPunct opening opening_injective b h]

lemma step_of_closing (b : Bracket) (opened : List Bracket) (h : t.isPunct b.closing) :
    step (b :: opened) t = some opened := by
  have hopen : all.find? (fun b => t.isPunct b.opening) = none := by
    obtain ⟨-,htext⟩ := isPunct_iff.mp h
    simp only [Token.isPunct,htext]
    cases b <;> cases t.kind <;> decide
  simp only [step,hopen,find?_isPunct closing closing_injective b h,List.head?_cons,if_pos,List.tail_cons]

/-- A token that does not open or close a bracket leaves those that are open. -/
lemma step_of_no_bracket (hnone : ∀ b : Bracket, t.isPunct b.opening = false ∧ t.isPunct b.closing = false)
    (opened : List Bracket) : step opened t = some opened := by
  have hopen : all.find? (fun b => t.isPunct b.opening) = none := by simp [hnone]
  have hclose : all.find? (fun b => t.isPunct b.closing) = none := by simp [hnone]
  simp only [step,hopen,hclose]

lemma step_of_kind (hpunct : t.kind ≠ .punct) (opened : List Bracket) : step opened t = some opened :=
  step_of_no_bracket (fun _ => by simp [Token.isPunct,hpunct]) opened

end Bracket

/-- A token that is no bracket and not the end. -/
structure Token.Inner (t : Token) : Prop where
  kind : t.kind ≠ .eof
  plain : ∀ opened, Bracket.step opened t = some opened

namespace Token.Inner

variable {t : Token} {text : String}

lemma of_kind (h : t.kind ≠ .eof) (hpunct : t.kind ≠ .punct) : t.Inner :=
  ⟨h,Bracket.step_of_kind hpunct⟩

lemma of_name (h : t.kind = .name) : t.Inner := of_kind (by simp [h]) (by simp [h])

lemma of_isName (h : t.isName text) : t.Inner := by
  simp only [Token.isName,Bool.and_eq_true,beq_iff_eq] at h
  exact of_name h.1

/-- The texts of brackets. -/
def brackets : List String := Bracket.all.flatMap fun b => [b.opening, b.closing]

lemma of_text (h : t.kind ≠ .eof) (htext : t.text ∉ brackets) : t.Inner := by
  refine ⟨h,Bracket.step_of_no_bracket fun b => ?_⟩
  have hne (f : Bracket → String) (hf : f b ∈ brackets) : t.isPunct (f b) = false := by
    rw [← Bool.not_eq_true,Bracket.isPunct_iff]
    exact fun heq => htext (heq.2 ▸ hf)
  exact ⟨hne Bracket.opening (by cases b <;> decide),hne Bracket.closing (by cases b <;> decide)⟩

lemma of_isPunct (h : t.isPunct text) (htext : text ∉ brackets) : t.Inner := by
  obtain ⟨hkind,rfl⟩ := Bracket.isPunct_iff.mp h
  exact of_text (by simp [hkind]) htext

end Token.Inner

end QmlCodeModel
