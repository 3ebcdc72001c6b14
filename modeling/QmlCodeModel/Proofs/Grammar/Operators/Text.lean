import Mathlib.Data.List.Find
import QmlCodeModel.Proofs.Grammar.Operators.Tree
import QmlCodeModel.Proofs.Token.Piece
import QmlCodeModel.Proofs.Tree.Bare

/-! Rows of operators and operands are cut into the tokens that they are written with. A slash behind an
operand divides, and a blank ends each operator. -/
namespace QmlCodeModel

namespace BinaryOperator

def kind (op : BinaryOperator) : TokenKind := if binaryWords.contains op.text then .name else .punct

/-- The token of an operator, without its place. -/
def token (op : BinaryOperator) : Token := ⟨op.kind,{},op.text,false⟩

lemma binaryPrecedence?_token (op : BinaryOperator) : op.token.binaryPrecedence? true = some op.precedence := by
  have hall : ∀ text ∈ binaryOperators,
      (Token.mk (if binaryWords.contains text then .name else .punct) {} text false).binaryPrecedence? true =
        some ((binaryPunctuators.lookup text).getD wordPrecedence) := by decide
  exact hall op.text op.listed

end BinaryOperator

def Operand.token (x : Operand) : Token := ⟨.name,{},x.text,false⟩

namespace OperatorRow

/-- The tokens of operators, each with the operand behind it. -/
def tokensBehind (later : List (BinaryOperator × Operand)) : List Token :=
  later.flatMap fun (op,x) => [op.token,x.token]

def tokens (row : OperatorRow) : List Token := row.first.token :: tokensBehind row.later

lemma length_tokensBehind (later : List (BinaryOperator × Operand)) :
    (tokensBehind later).length = 2 * later.length := by
  simp [tokensBehind,Nat.mul_comm]

lemma length_later_le (row : OperatorRow) : row.later.length ≤ row.tokens.length := by
  rw [tokens,List.length_cons,length_tokensBehind]
  omega

/-- The text of operators, each with the operand behind it. -/
def charsBehind (later : List (BinaryOperator × Operand)) : List Char :=
  later.flatMap fun (op,x) => ' ' :: (op.text.toList ++ ' ' :: x.text.toList)

lemma toList_text (row : OperatorRow) : row.text.toList = row.first.text.toList ++ charsBehind row.later := by
  obtain ⟨first,later⟩ := row
  have hblank : " ".toList = [' '] := by decide
  unfold text words
  rw [String.toList_intercalate,hblank]
  induction later generalizing first with
  | nil => simp [charsBehind]
  | cons p later ih =>
    obtain ⟨op,x⟩ := p
    have hlater := ih x
    simp only [List.map_cons] at hlater
    simp [List.intercalate_cons_cons,charsBehind,hlater]

example : text {
    first := { text := "a" }
    later := [({ text := "**" },{ text := "b" }),({ text := "in" },{ text := "c" })] } = "a ** b in c" := by
  decide +kernel

end OperatorRow

section

variable {allowed : Bool} {text tail : List Char}

/-- Where a blank follows a text, what has no blank is in front of both or of neither. -/
lemma isPrefixOf_before_blank {start : List Char} (h : ' ' ∉ start) :
    start.isPrefixOf (text ++ ' ' :: tail) = start.isPrefixOf text := by
  induction start generalizing text with
  | nil => rfl
  | cons c start ih =>
    rw [List.mem_cons,not_or] at h
    cases text with
    | nil => simp [List.isPrefixOf,Ne.symm h.1]
    | cons d text => simp [List.isPrefixOf,ih h.2]

/-- Before a blank the longest punctuator is the whole operator. -/
lemma punctuatorAt_operator (tail : List Char) {op : String} (h : op ∈ binaryPunctuators.map Prod.fst) :
    punctuatorAt (op.toList ++ ' ' :: tail) = some op := by
  have hblank : ∀ p ∈ punctuators, ' ' ∉ p.toList := by decide
  have hall : ∀ op ∈ binaryPunctuators.map Prod.fst,
      punctuators.find? (fun p => p.toList.isPrefixOf op.toList) = some op ∧
        "?.".toList.isPrefixOf op.toList = false := by decide +kernel
  obtain ⟨hfind,hchain⟩ := hall op h
  rw [← hfind]
  refine List.find?_congr fun p hp => ?_
  rw [isPrefixOf_before_blank (hblank p hp)]
  by_cases hp : p = "?."
  · rw [hp,hchain,Bool.false_and]
  · simp [punctuatorStands,hp]

lemma lexemesFrom_blank : lexemesFrom allowed (' ' :: tail) = .blank ' ' :: lexemesFrom allowed tail := by
  rw [lexemesFrom]
  rfl

lemma isNamePart_blank : isNamePart ' ' = false := by decide +kernel

/-- An operand is read as a name, behind which a slash divides. -/
lemma lexemesFrom_operand (x : Operand) (htail : ∀ c ∈ tail.head?, c = ' ') :
    lexemesFrom allowed (x.text.toList ++ tail) =
      .token .name x.text.toList [] :: lexemesFrom false tail := by
  have hregExp : regExpMayFollow .name x.text.toList = false := by
    have hwords : ∀ word ∈ wordsBeforeRegExp, isReserved word ∨ word ∈ contextualWords := by decide
    have hfree := x.free
    have hplain := x.plain
    unfold regExpMayFollow
    rw [String.ofList_toList]
    grind
  have hword := x.isWord
  cases htext : x.text.toList with
  | nil => simp [htext,isWord] at hword
  | cons c cs =>
    rw [htext] at hword hregExp
    rw [List.cons_append,lexemesFrom,readLexeme_word hword fun d hd => htail d hd ▸ isNamePart_blank]
    simp [Lexeme.regExpAllowed,hregExp]

/-- An operator is no comment and no number, and a slash that divides is one. -/
lemma readLexeme_operator {op : String} (h : op ∈ binaryPunctuators.map Prod.fst) {c : Char} {cs : List Char}
    (htext : op.toList = c :: cs) :
    readLexeme false c (cs ++ ' ' :: tail) = (.token .punct op.toList [],' ' :: tail) := by
  -- each character is looked at through its operator, so that only the operators are gone through
  have hall : ∀ op ∈ binaryPunctuators.map Prod.fst, let c := op.toList.headD ' '
      isLineTerminator c = false ∧ CharClass.blank.contains c = false ∧ c ≠ '\ufeff' ∧ isNameStart c = false ∧
        c.isDigit = false ∧ c ≠ '.' ∧ c ≠ '"' ∧ c ≠ '\'' ∧ c ≠ '\x60' ∧ (c = '/' → op.toList = ['/']) := by
    decide +kernel
  have hfirst := hall op h
  simp only [htext,List.headD_cons] at hfirst
  obtain ⟨hline,hblank,hmark,hname,hdigit,hdot,hdouble,hsingle,htick,hslash⟩ := hfirst
  have hcomment : readComment (c :: (cs ++ ' ' :: tail)) = none := by
    unfold readComment
    split
    · rename_i heq
      simp_all
    · rename_i heq
      simp_all
    · rfl
  have hpunct := punctuatorAt_operator tail h
  rw [htext,List.cons_append] at hpunct
  have hlength : op.length = (c :: cs).length := by rw [← htext,String.length_toList]
  simp [readLexeme,hline,hblank,hmark,hcomment,readToken,hname,startsNumber,hdigit,hdot,hdouble,hsingle,htick,
    hpunct,hlength]

lemma lexemesFrom_operator (op : BinaryOperator) (tail : List Char) : ∃ later,
    lexemesFrom false (op.text.toList ++ ' ' :: tail) =
      .token op.kind op.text.toList [] :: lexemesFrom later (' ' :: tail) := by
  have hread : ∀ c cs, op.text.toList = c :: cs →
      readLexeme false c (cs ++ ' ' :: tail) = (.token op.kind op.text.toList [],' ' :: tail) := by
    intro c cs htext
    obtain hpunct | hword := List.mem_append.mp op.listed
    · have hkind : ∀ text ∈ binaryPunctuators.map Prod.fst, text ∉ binaryWords := by decide
      simp only [BinaryOperator.kind,List.contains_eq_mem,hkind _ hpunct]
      exact readLexeme_operator hpunct htext
    · have hwords : ∀ text ∈ binaryWords, isWord text.toList := by decide +kernel
      have hword' := hwords _ hword
      simp only [BinaryOperator.kind,List.contains_eq_mem,hword]
      rw [htext] at hword' ⊢
      apply readLexeme_word hword'
      rintro d ⟨⟩
      exact isNamePart_blank
  have hne : ∀ text ∈ binaryOperators, text.toList ≠ [] := by decide
  obtain ⟨c,cs,htext⟩ := List.exists_cons_of_ne_nil (hne _ op.listed)
  exact ⟨_,by rw [htext,List.cons_append,lexemesFrom,hread c cs htext,htext]⟩

end

/-! The tokens of a row. -/

namespace Lexeme

/-- The token of a lexeme that is one, without its place. -/
def token? : Lexeme → Option Token
  | token kind text _ => some ⟨kind,{},String.ofList text,false⟩
  | _ => none

/-- A blank, or a token with which nothing is wrong. -/
def IsPlain : Lexeme → Prop
  | blank _ => True
  | token _ _ faults => faults = []
  | _ => False

end Lexeme

/-- Plain lexemes on one line add their tokens. -/
lemma TokenStream.foldl_plain {lexemes : List Lexeme} {s : TokenStream} (h : ∀ l ∈ lexemes, l.IsPlain)
    (hs : s.newline = false) :
    (lexemes.foldl add s).tokens.toList.map Token.bare =
        s.tokens.toList.map Token.bare ++ lexemes.filterMap Lexeme.token? ∧
      (lexemes.foldl add s).faults = s.faults := by
  induction lexemes generalizing s with
  | nil => simp
  | cons l lexemes ih =>
    obtain ⟨hl,hlexemes⟩ := List.forall_mem_cons.mp h
    rw [List.foldl_cons]
    cases l with
    | blank c =>
      obtain ⟨htokens,hfaults⟩ := ih (s := s.add (.blank c)) hlexemes hs
      exact ⟨htokens,hfaults⟩
    | token kind text faults =>
      obtain rfl : faults = [] := hl
      obtain ⟨htokens,hfaults⟩ := ih (s := s.add (.token kind text [])) hlexemes rfl
      refine ⟨htokens.trans ?_,hfaults.trans ?_⟩
      · simp [add,addToken,Token.bare,Lexeme.token?,hs]
      · simp [add,addToken]
    | lineBreak | comment | stray => exact hl.elim

namespace OperatorRow

/-- The lexemes of operators, each with the operand behind it. -/
def lexemesBehind (later : List (BinaryOperator × Operand)) : List Lexeme :=
  later.flatMap fun (op,x) =>
    [.blank ' ',.token op.kind op.text.toList [],.blank ' ',.token .name x.text.toList []]

def lexemes (row : OperatorRow) : List Lexeme :=
  .token .name row.first.text.toList [] :: lexemesBehind row.later

lemma head?_charsBehind (later : List (BinaryOperator × Operand)) :
    ∀ c ∈ (charsBehind later).head?, c = ' ' := by
  cases later with
  | nil => exact nofun
  | cons p later =>
    rintro c ⟨⟩
    rfl

lemma lexemesFrom_charsBehind (later : List (BinaryOperator × Operand)) :
    lexemesFrom false (charsBehind later) = lexemesBehind later := by
  induction later with
  | nil => simp [charsBehind,lexemesBehind,lexemesFrom]
  | cons p later ih =>
    obtain ⟨op,x⟩ := p
    have hchars : charsBehind ((op,x) :: later) =
        ' ' :: (op.text.toList ++ ' ' :: (x.text.toList ++ charsBehind later)) := by simp [charsBehind]
    obtain ⟨allowed,hop⟩ := lexemesFrom_operator op (x.text.toList ++ charsBehind later)
    rw [hchars,lexemesFrom_blank,hop,lexemesFrom_blank,lexemesFrom_operand x (head?_charsBehind later),ih]
    rfl

lemma lexemes_text (row : OperatorRow) : QmlCodeModel.lexemes row.text.toList = row.lexemes := by
  rw [toList_text,QmlCodeModel.lexemes,lexemesFrom_operand row.first (head?_charsBehind row.later),
    lexemesFrom_charsBehind]
  rfl

lemma isPlain_lexemes (row : OperatorRow) : ∀ l ∈ row.lexemes, l.IsPlain := by
  intro l hl
  obtain rfl | hl := List.mem_cons.mp hl
  · exact rfl
  · obtain ⟨⟨op,x⟩,-,hl⟩ := List.mem_flatMap.mp hl
    simp only [List.mem_cons,List.not_mem_nil,or_false] at hl
    obtain rfl | rfl | rfl | rfl := hl <;> simp [Lexeme.IsPlain]

lemma filterMap_lexemes (row : OperatorRow) : row.lexemes.filterMap Lexeme.token? = row.tokens := by
  simp [lexemes,tokens,lexemesBehind,tokensBehind,List.filterMap_flatMap,List.filterMap_cons,Lexeme.token?,
    Operand.token,BinaryOperator.token]

/-- A row is cut into its operands and operators, and nothing is wrong with it. -/
theorem tokenize_text (row : OperatorRow) : ∃ tokens eof,
    (tokenize row.text.toList).tokens.toList = tokens ++ [eof] ∧ tokens.map Token.bare = row.tokens ∧
      eof.kind = .eof ∧ (tokenize row.text.toList).faults = #[] := by
  obtain ⟨htokens,hfaults⟩ := TokenStream.foldl_plain (s := {}) row.isPlain_lexemes rfl
  unfold tokenize
  rw [lexemes_text]
  refine ⟨_,_,Array.toList_push,?_,rfl,?_⟩
  · simpa [filterMap_lexemes] using htokens
  · simpa [TokenStream.finish,TokenStream.addToken] using hfaults

end OperatorRow

end QmlCodeModel
