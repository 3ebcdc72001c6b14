import QmlCodeModel.Text.CharClass
import QmlCodeModel.Token.Number

/-! A text as a list of lexemes: blanks, line ends, comments, stray characters and tokens. The main
statement is `flatMap_text_lexemes`: the texts of the lexemes, put together, are the text. -/
namespace QmlCodeModel

inductive Lexeme
  | blank (c : Char)
  | lineBreak (c : Char)
  | comment (text : List Char) (closed : Bool)
  /-- A character that starts nothing. -/
  | stray (c : Char)
  /-- A token, and what is wrong with it: each fault with the number of bytes from the start of the
  token that it concerns. -/
  | token (kind : TokenKind) (text : List Char) (faults : List (LexicalFault × Nat))
  deriving DecidableEq, Repr

def Lexeme.text : Lexeme → List Char
  | .blank c | .lineBreak c | .stray c => [c]
  | .comment text _ => text
  | .token _ text _ => text

/-- The punctuators, so ordered that none is hidden by a shorter one before it. -/
def punctuators : List String :=
  [">>>=", "...", "===", "!==", "**=", "<<=", ">>=", ">>>", "&&=", "||=", "??=", "=>", "==",
    "!=", "<=", ">=", "&&", "||", "??", "?.", "++", "--", "+=", "-=", "*=", "/=", "%=", "&=",
    "|=", "^=", "<<", ">>", "**", "\x7b", "\x7d", "(", ")", "[", "]", ";", ",", "<", ">", "+", "-",
    "*", "/", "%", "&", "|", "^", "!", "~", "?", ":", "=", ".", "@"]

/-- Words after which a slash starts a regular expression, and does not divide. -/
def wordsBeforeRegExp : List String :=
  ["return", "typeof", "case", "do", "else", "in", "instanceof", "new", "delete", "void",
    "throw", "yield", "await", "of"]

/-- Whether a slash after this token starts a regular expression. -/
def regExpMayFollow (kind : TokenKind) (text : List Char) : Bool :=
  match kind with
  | .punct => !([")", "]", "\x7d", "++", "--"].contains (String.ofList text))
  | .name => wordsBeforeRegExp.contains (String.ofList text)
  | _ => false

/-- A question mark and a dot before a digit are no punctuator: the question mark is a conditional's
and the dot belongs to the number. -/
def punctuatorStands (punct : String) (text : List Char) : Bool :=
  punct != "?." || !((text.drop 2).head?.any Char.isDigit)

/-- The first punctuator that the text starts with. -/
def punctuatorAt (text : List Char) : Option String :=
  punctuators.find? fun p => p.toList.isPrefixOf text && punctuatorStands p text

/-- A token whose reader looks for an end, and what is wrong if there is none. -/
def Lexeme.ofCut (kind : TokenKind) (fault : LexicalFault) (opening : Char) (cut : Cut) :
    Lexeme × List Char :=
  let text := opening :: cut.taken
  (.token kind text (if cut.closed then [] else [(fault, byteWidth text)]), cut.rest)

/-- Whether a number starts with this character, when this text follows it. -/
def startsNumber (c : Char) (rest : List Char) : Bool :=
  c.isDigit || (c == '.' && rest.head?.any Char.isDigit)

/-- The token or stray character at the start of a text, where no blank and no comment starts. -/
def readToken (regExpAllowed : Bool) (c : Char) (rest : List Char) : Lexeme × List Char :=
  if isNameStart c then
    let cut := Cut.ofWhile isNamePart rest
    (.token .name (c :: cut.taken) [], cut.rest)
  else if startsNumber c rest then
    let number := readNumber (c :: rest)
    (.token .number number.taken number.faults, number.tail.rest)
  else if c == '"' || c == '\'' then Lexeme.ofCut .string .unterminatedString c (readString c rest)
  else if c == '\x60' then Lexeme.ofCut .template .unterminatedTemplate c (readTemplate {} rest)
  else if c == '/' && regExpAllowed then
    Lexeme.ofCut .regExp .unterminatedRegExp c (readRegExp false rest)
  else
    match punctuatorAt (c :: rest) with
    | some punct => (.token .punct punct.toList [], (c :: rest).drop punct.length)
    | none => (.stray c, rest)

/-- The comment at the start of a text, if there is one. -/
def readComment : List Char → Option (Lexeme × List Char)
  | '/' :: '/' :: rest =>
    let cut := Cut.ofWhile (!isLineTerminator ·) rest
    some (.comment ('/' :: '/' :: cut.taken) true, cut.rest)
  | '/' :: '*' :: rest =>
    let cut := readBlockComment rest
    some (.comment ('/' :: '*' :: cut.taken) cut.closed, cut.rest)
  | _ => none

/-- The first lexeme of a text that is not empty. -/
def readLexeme (regExpAllowed : Bool) (c : Char) (rest : List Char) : Lexeme × List Char :=
  if isLineTerminator c then (.lineBreak c, rest)
  else if CharClass.blank.contains c || c == '\ufeff' then (.blank c, rest)
  else (readComment (c :: rest)).getD (readToken regExpAllowed c rest)

/-- A reading of a text: a lexeme that is not empty, and the text after it. -/
def IsReading (reading : Lexeme × List Char) (text : List Char) : Prop :=
  reading.1.text ++ reading.2 = text ∧ reading.1.text ≠ []

theorem isReading_ofCut {kind : TokenKind} {fault : LexicalFault} {opening : Char} {cut : Cut}
    {text : List Char} (h : cut.Splits text) :
    IsReading (Lexeme.ofCut kind fault opening cut) (opening :: text) :=
  ⟨congrArg (opening :: ·) h, List.cons_ne_nil _ _⟩

theorem taken_readDecimal_ne_nil {c : Char} {rest : List Char} (h : startsNumber c rest) :
    (readDecimal (c :: rest)).taken ≠ [] := by
  by_cases hc : isDigitOrSeparator c
  · simp [readDecimal, Cut.followedBy, Cut.prepend, Cut.ofWhile, hc]
  · have hdot : c = '.' := by
      simp only [isDigitOrSeparator, Bool.or_eq_true, not_or] at hc
      simp only [startsNumber, hc.1, Bool.false_or, Bool.and_eq_true, beq_iff_eq] at h
      exact h.1
    subst hdot
    simp [readDecimal, Cut.followedBy, Cut.prepend, Cut.ofWhile, readFraction, isDigitOrSeparator]

theorem taken_readNumber_ne_nil {c : Char} {rest : List Char} (h : startsNumber c rest) :
    (readNumber (c :: rest)).taken ≠ [] := by
  suffices h' : (readDigits (c :: rest)).taken ≠ [] by
    simp only [NumberCut.taken, readNumber]
    simp [h']
  unfold readDigits
  split
  · rename_i heq
    split
    · exact fun h => List.cons_ne_nil _ _ h
    · exact heq ▸ taken_readDecimal_ne_nil h
  · exact taken_readDecimal_ne_nil h

theorem isReading_punct {text : List Char} {punct : String} (h : punctuatorAt text = some punct) :
    IsReading (.token .punct punct.toList [], text.drop punct.length) text := by
  have hmem := List.mem_of_find?_eq_some h
  have hprefix := List.find?_some h
  simp only [Bool.and_eq_true] at hprefix
  have hp : punct.toList <+: text := List.isPrefixOf_iff_prefix.mp hprefix.1
  obtain ⟨rest, rfl⟩ := hp
  have hne : ∀ p ∈ punctuators, p.toList ≠ [] := by decide
  refine ⟨?_, hne punct hmem⟩
  rw [← String.length_toList, List.drop_left]
  rfl

theorem isReading_readToken (regExpAllowed : Bool) (c : Char) (rest : List Char) :
    IsReading (readToken regExpAllowed c rest) (c :: rest) := by
  unfold readToken
  split
  · exact ⟨congrArg (c :: ·) (Cut.splits_ofWhile isNamePart rest), List.cons_ne_nil _ _⟩
  split
  · rename_i h
    exact ⟨taken_append_rest_readNumber _, taken_readNumber_ne_nil h⟩
  split
  · exact isReading_ofCut (splits_readString c rest)
  split
  · exact isReading_ofCut (splits_readTemplate {} rest)
  split
  · exact isReading_ofCut (splits_readRegExp false rest)
  split
  · rename_i h
    exact isReading_punct h
  · exact ⟨rfl, List.cons_ne_nil _ _⟩

theorem isReading_readComment {text : List Char} {reading : Lexeme × List Char}
    (h : readComment text = some reading) : IsReading reading text := by
  revert h
  fun_cases readComment text with
  | case1 rest =>
    rintro ⟨⟩
    exact ⟨congrArg ('/' :: '/' :: ·) (Cut.splits_ofWhile (!isLineTerminator ·) rest),
      List.cons_ne_nil _ _⟩
  | case2 rest =>
    rintro ⟨⟩
    exact ⟨congrArg ('/' :: '*' :: ·) (splits_readBlockComment rest), List.cons_ne_nil _ _⟩
  | case3 => simp

theorem isReading_readLexeme (regExpAllowed : Bool) (c : Char) (rest : List Char) :
    IsReading (readLexeme regExpAllowed c rest) (c :: rest) := by
  unfold readLexeme
  split
  · exact ⟨rfl, List.cons_ne_nil _ _⟩
  split
  · exact ⟨rfl, List.cons_ne_nil _ _⟩
  cases h : readComment (c :: rest) with
  | some reading => exact isReading_readComment h
  | none => exact isReading_readToken regExpAllowed c rest

theorem IsReading.length_lt {reading : Lexeme × List Char} {text : List Char}
    (h : IsReading reading text) : reading.2.length < text.length := by
  have := List.length_pos_iff.mpr h.2
  rw [← h.1]
  simp only [List.length_append]
  omega

/-- Whether a slash after this lexeme starts a regular expression: only tokens decide. -/
def Lexeme.regExpAllowed (before : Bool) : Lexeme → Bool
  | .token kind text _ => regExpMayFollow kind text
  | _ => before

/-- The lexemes of a text, in order. -/
def lexemesFrom (regExpAllowed : Bool) : List Char → List Lexeme
  | [] => []
  | c :: rest =>
    (readLexeme regExpAllowed c rest).1 ::
      lexemesFrom ((readLexeme regExpAllowed c rest).1.regExpAllowed regExpAllowed)
        (readLexeme regExpAllowed c rest).2
termination_by text => text.length
decreasing_by exact (isReading_readLexeme regExpAllowed c rest).length_lt

def lexemes (text : List Char) : List Lexeme := lexemesFrom true text

theorem flatMap_text_lexemesFrom (regExpAllowed : Bool) (text : List Char) :
    (lexemesFrom regExpAllowed text).flatMap Lexeme.text = text := by
  fun_induction lexemesFrom regExpAllowed text with
  | case1 => rfl
  | case2 allowed c rest ih =>
    rw [List.flatMap_cons, ih]
    exact (isReading_readLexeme allowed c rest).1

/-- Cutting a text into lexemes loses nothing and adds nothing. -/
theorem flatMap_text_lexemes (text : List Char) : (lexemes text).flatMap Lexeme.text = text :=
  flatMap_text_lexemesFrom true text

end QmlCodeModel
