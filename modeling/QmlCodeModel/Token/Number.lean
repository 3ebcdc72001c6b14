import QmlCodeModel.Token.Reader

/-! The reader of numeric literals. It takes more than the literals of the language: what it takes
beyond them is either reported or left to whoever reads the value. -/
namespace QmlCodeModel

def isHexDigit (c : Char) : Bool :=
  c.isDigit || ('a' ≤ c && c ≤ 'f') || ('A' ≤ c && c ≤ 'F')

def isDigitOrSeparator (c : Char) : Bool := c.isDigit || c == '_'

def isHexDigitOrSeparator (c : Char) : Bool := isHexDigit c || c == '_'

/-- The letters that follow a leading zero and name a radix. -/
def isRadixLetter (c : Char) : Bool :=
  c == 'x' || c == 'X' || c == 'o' || c == 'O' || c == 'b' || c == 'B'

/-- Takes a dot and the digits after it, if there is a dot. -/
def readFraction : List Char → Cut
  | '.' :: rest => (Cut.ofWhile isDigitOrSeparator rest).prepend ['.']
  | text => ⟨[], text, true⟩

/-- Takes the sign of an exponent, if there is one. -/
def readSign : List Char → Cut
  | c :: rest => if c == '+' || c == '-' then ⟨[c], rest, true⟩ else ⟨[], c :: rest, true⟩
  | [] => ⟨[], [], true⟩

/-- Takes an exponent, if the letter, the sign and the following characters are one: it needs a
digit, without which nothing is taken. -/
def readExponent : List Char → Cut
  | c :: rest =>
    let number := (readSign rest).followedBy (Cut.ofWhile Char.isDigit)
    if (c == 'e' || c == 'E') && number.taken.any Char.isDigit then number.prepend [c]
    else ⟨[], c :: rest, true⟩
  | [] => ⟨[], [], true⟩

/-- Takes the suffix of a big integer, if it is there. -/
def readBigSuffix : List Char → Cut
  | 'n' :: rest => ⟨['n'], rest, true⟩
  | text => ⟨[], text, true⟩

def readDecimal (text : List Char) : Cut :=
  ((Cut.ofWhile isDigitOrSeparator text).followedBy readFraction).followedBy readExponent

/-- Takes the digits of a number up to its suffix. It is closed unless a radix is named and no digit
follows. Every radix takes the hexadecimal digits. -/
def readDigits : List Char → Cut
  | '0' :: c :: rest =>
    if isRadixLetter c then
      let digits := Cut.ofWhile isHexDigitOrSeparator rest
      { digits.prepend ['0', c] with closed := !digits.taken.isEmpty }
    else readDecimal ('0' :: c :: rest)
  | text => readDecimal text

/-- Takes the characters of a name, if one starts here: no name may touch a number. -/
def readNameTail : List Char → Cut
  | c :: rest => if isNameStart c then Cut.ofWhile isNamePart (c :: rest) else ⟨[], c :: rest, true⟩
  | [] => ⟨[], [], true⟩

/-- A number as it stands in the text: its digits and suffix, and a name that wrongly touches it. -/
structure NumberCut where
  digits : Cut
  suffix : Cut
  tail : Cut

def readNumber (text : List Char) : NumberCut :=
  let digits := readDigits text
  let suffix := readBigSuffix digits.rest
  ⟨digits, suffix, readNameTail suffix.rest⟩

namespace NumberCut

def taken (n : NumberCut) : List Char := n.digits.taken ++ n.suffix.taken ++ n.tail.taken

/-- What is wrong with the number, with the number of bytes from its start that are concerned. -/
def faults (n : NumberCut) : List (LexicalFault × Nat) :=
  (if n.digits.closed then [] else [(.invalidNumber, byteWidth n.digits.taken)]) ++
    if n.tail.taken.isEmpty then [] else [(.invalidNumber, byteWidth n.taken)]

end NumberCut

theorem splits_readFraction (text : List Char) : (readFraction text).Splits text := by
  fun_cases readFraction text with
  | case1 => exact (Cut.splits_ofWhile _ _).prepend _
  | case2 => rfl

theorem splits_readSign (text : List Char) : (readSign text).Splits text := by
  fun_cases readSign text <;> rfl

theorem splits_readExponent (text : List Char) : (readExponent text).Splits text := by
  fun_cases readExponent text with
  | case1 => exact ((splits_readSign _).followedBy (Cut.splits_ofWhile _)).prepend _
  | case2 => rfl
  | case3 => rfl

theorem splits_readBigSuffix (text : List Char) : (readBigSuffix text).Splits text := by
  fun_cases readBigSuffix text <;> rfl

theorem splits_readDecimal (text : List Char) : (readDecimal text).Splits text :=
  ((Cut.splits_ofWhile _ _).followedBy splits_readFraction).followedBy splits_readExponent

theorem splits_readDigits (text : List Char) : (readDigits text).Splits text := by
  fun_cases readDigits text with
  | case1 => exact (Cut.splits_ofWhile _ _).prepend _
  | case2 => exact splits_readDecimal _
  | case3 => exact splits_readDecimal _

theorem splits_readNameTail (text : List Char) : (readNameTail text).Splits text := by
  fun_cases readNameTail text with
  | case1 => exact Cut.splits_ofWhile _ _
  | case2 => rfl
  | case3 => rfl

theorem taken_append_rest_readNumber (text : List Char) :
    (readNumber text).taken ++ (readNumber text).tail.rest = text := by
  have h₁ := splits_readDigits text
  have h₂ := splits_readBigSuffix (readDigits text).rest
  have h₃ := splits_readNameTail (readBigSuffix (readDigits text).rest).rest
  simp only [Cut.Splits] at h₁ h₂ h₃
  simp only [NumberCut.taken, readNumber, List.append_assoc]
  rw [h₃, h₂, h₁]

end QmlCodeModel
