import Mathlib.Tactic.Common
import QmlCodeModel.Proofs.Token.Quoted
import QmlCodeModel.Text.Numeral

/-! Strings in all the ways that they can be written. Whatever way is chosen for each character, the reader
finds the end of the string, and its value is the string that was written. Hexadecimal numerals are read as the
numbers that they are, whatever the case of their digits and however many zeros they start with. -/
namespace QmlCodeModel

/-! Hexadecimal numerals. -/

section

/-- The digits by their values, in small or in capital letters. -/
def hexDigits (capitals : Bool) : List Char :=
  (if capitals then "0123456789ABCDEF" else "0123456789abcdef").toList

/-- A digit of either case, and its value. -/
def HexDigit (c : Char) (value : Nat) : Prop := ∃ capitals, (hexDigits capitals)[value]? = some c

/-- Digits, and the number that they are. -/
inductive HexNumeral : List Char → Nat → Prop
  | digit {c : Char} {value : Nat} (h : HexDigit c value) : HexNumeral [c] value
  | next {digits : List Char} {n value : Nat} {c : Char} (h : HexNumeral digits n) (hc : HexDigit c value) :
      HexNumeral (digits ++ [c]) (16 * n + value)

variable {c : Char} {digits : List Char} {n value : Nat}

lemma HexDigit.mem (h : HexDigit c value) : ∃ capitals, c ∈ hexDigits capitals :=
  h.imp fun _ h => List.mem_of_getElem? h

lemma HexDigit.digitValue? (h : HexDigit c value) : QmlCodeModel.digitValue? c = some value ∧ value < 16 := by
  obtain ⟨capitals,h⟩ := h
  have hlt : value < 16 := by
    obtain ⟨hlt,-⟩ := List.getElem?_eq_some_iff.mp h
    cases capitals <;> exact hlt
  have hall : ∀ capitals, ∀ value < 16,
      (hexDigits capitals)[value]?.bind QmlCodeModel.digitValue? = some value := by decide +kernel
  have hvalue := hall capitals value hlt
  rw [h] at hvalue
  exact ⟨hvalue,hlt⟩

/-- What holds of every digit holds of all of a numeral. -/
lemma HexNumeral.all {test : Char → Bool} (h : HexNumeral digits n)
    (htest : ∀ capitals, (hexDigits capitals).all test) : digits.all test := by
  have hdigit {c : Char} {value : Nat} (hc : HexDigit c value) : test c := by
    obtain ⟨capitals,hmem⟩ := hc.mem
    exact List.all_eq_true.mp (htest capitals) c hmem
  induction h with
  | digit hc => simp [hdigit hc]
  | next _ hc ih => simp [ih,hdigit hc]

lemma HexNumeral.ne_nil (h : HexNumeral digits n) : digits ≠ [] := by
  cases h <;> simp

/-- By induction on the digits. -/
lemma HexNumeral.digitsValue? (h : HexNumeral digits n) : QmlCodeModel.digitsValue? 16 digits = some n := by
  induction h with
  | digit hc =>
    obtain ⟨hvalue,hlt⟩ := hc.digitValue?
    simp [QmlCodeModel.digitsValue?,hvalue,hlt]
  | @next digits n value c _ hc ih =>
    obtain ⟨hvalue,hlt⟩ := hc.digitValue?
    unfold QmlCodeModel.digitsValue? at ih ⊢
    rw [List.foldlM_append,ih]
    simp [hvalue,hlt,Nat.mul_comm]

/-- A numeral is read as its number, if that is not too large. -/
theorem HexNumeral.word32? (h : HexNumeral digits n) (hn : n < 0x100000000) : QmlCodeModel.word32? 16 digits = some n := by
  obtain ⟨first,later,rfl⟩ := List.exists_cons_of_ne_nil h.ne_nil
  have hall : (first :: later).all (· != '+') := h.all (by decide +kernel)
  have hplus : first ≠ '+' := by simpa using List.all_eq_true.mp hall first List.mem_cons_self
  unfold QmlCodeModel.word32? word?
  split
  · rename_i heq
    exact absurd (List.cons.inj heq).1 hplus
  · simp [h.digitsValue?,hn]

/-! Numerals of a given length. -/

/-- The four digits of a number below 16⁴. -/
def hexUnit (capitals : Bool) (n : Nat) : List Char :=
  [n / 4096,n / 256 % 16,n / 16 % 16,n % 16].map fun value => (hexDigits capitals).getD value '0'

lemma hexNumeral_hexUnit (capitals : Bool) (h : n < 65536) : HexNumeral (hexUnit capitals n) n := by
  have hdigit {value : Nat} (hvalue : value < 16) : HexDigit ((hexDigits capitals).getD value '0') value := by
    have hlength : value < (hexDigits capitals).length := by cases capitals <;> exact hvalue
    refine ⟨capitals,?_⟩
    rw [List.getD_eq_getElem?_getD,List.getElem?_eq_getElem hlength]
    rfl
  have hfour := (((HexNumeral.digit (hdigit (show n / 4096 < 16 by omega))).next
    (hdigit (show n / 256 % 16 < 16 by omega))).next (hdigit (show n / 16 % 16 < 16 by omega))).next
    (hdigit (show n % 16 < 16 by omega))
  have hsum : 16 * (16 * (16 * (n / 4096) + n / 256 % 16) + n / 16 % 16) + n % 16 = n := by omega
  rwa [hsum] at hfour

end

/-! Strings. -/

/-- The ways to write a character between quotes. -/
inductive Spelling (quote c : Char) : List Char → Prop
  | plain (h : c ≠ quote ∧ c ≠ '\\' ∧ isLineTerminator c = false) : Spelling quote c [c]
  | letter {letter : Char} (h : (letter,c) ∈ escapeLetters) : Spelling quote c ['\\',letter]
  | escaped (h : c = quote ∨ c = '\\') : Spelling quote c ['\\',c]
  | byte {digits : List Char} (h : HexNumeral digits c.toNat) (hlength : digits.length = 2) :
      Spelling quote c ('\\' :: 'x' :: digits)
  | unit {digits : List Char} (h : HexNumeral digits c.toNat) (hlength : digits.length = 4) :
      Spelling quote c ('\\' :: 'u' :: digits)
  | braced {digits : List Char} (h : HexNumeral digits c.toNat) :
      Spelling quote c ('\\' :: 'u' :: '\x7b' :: (digits ++ ['\x7d']))

/-- A string, and a text in which each of its characters is written in one of its ways. -/
inductive Spelled (quote : Char) : List Char → List Char → Prop
  | nil : Spelled quote [] []
  | cons {c : Char} {s piece text : List Char} (first : Spelling quote c piece) (later : Spelled quote s text) :
      Spelled quote (c :: s) (piece ++ text)

variable {quote c : Char} {s piece text digits tail : List Char} {n : Nat}

/-! Hexadecimal digits in a string. -/

lemma HexNumeral.stringBody (h : HexNumeral digits n) (hquote : isQuote quote) : StringBody quote digits := by
  have hall : digits.all fun c => !isQuote c && c != '\\' && !isLineTerminator c := h.all (by decide +kernel)
  refine .of_forall fun c hc => ?_
  have hc := List.all_eq_true.mp hall c hc
  simp only [Bool.and_eq_true,Bool.not_eq_true',bne_iff_ne] at hc
  exact ⟨ne_of_isQuote hquote hc.1.1,hc.1.2,hc.2⟩

lemma HexNumeral.brace_notMem (h : HexNumeral digits n) : '\x7b' ∉ digits ∧ '\x7d' ∉ digits := by
  have hall : digits.all fun c => c != '\x7b' && c != '\x7d' := h.all (by decide +kernel)
  have hnone {c : Char} (hc : (c != '\x7b' && c != '\x7d') = false) : c ∉ digits := fun hmem =>
    Bool.false_ne_true (hc.symm.trans (List.all_eq_true.mp hall c hmem))
  exact ⟨hnone rfl,hnone rfl⟩

lemma HexNumeral.brace_head?_ne (h : HexNumeral digits n) : digits.head? ≠ some '\x7b' := fun heq =>
  h.brace_notMem.1 (List.mem_of_head? heq)

/-- Digits stand for the character with their number, if there is one. -/
lemma HexNumeral.charOfHex (h : HexNumeral digits n) (hn : n < 0x100000000) :
    QmlCodeModel.charOfHex digits = if n.isValidChar then [Char.ofNat n] else [] := by
  rw [QmlCodeModel.charOfHex,h.word32? hn]

lemma HexNumeral.charOfHex_toNat (h : HexNumeral digits c.toNat) : QmlCodeModel.charOfHex digits = [c] := by
  have hlt : c.toNat < 0x100000000 := c.val.toNat_lt
  rw [h.charOfHex hlt,if_pos (show c.toNat.isValidChar from c.valid),Char.ofNat_toNat]

/-! One character. -/

/-- Each way to write a character may stand in a string. -/
lemma Spelling.stringBody (h : Spelling quote c piece) (hquote : isQuote quote) : StringBody quote piece := by
  have hescape {d : Char} (hd : d ≠ '\r') : StringBody quote ['\\',d] := .escape hd
  cases h with
  | plain h => exact .char h
  | letter h =>
    have hall : ∀ p ∈ escapeLetters, p.1 ≠ '\r' := by decide
    exact .escape (hall _ h)
  | escaped h =>
    refine .escape ?_
    obtain rfl | rfl := h
    · exact (ne_of_isQuote hquote (by decide)).symm
    · decide
  | byte h => exact (hescape (by decide)).append (h.stringBody hquote)
  | unit h => exact (hescape (by decide)).append (h.stringBody hquote)
  | braced h =>
    have hbrace {d : Char} (hd : isQuote d = false ∧ d ≠ '\\' ∧ isLineTerminator d = false) :
        StringBody quote [d] := .char ⟨ne_of_isQuote hquote hd.1,hd.2⟩
    exact (hescape (by decide)).append
      ((hbrace (by decide)).append ((h.stringBody hquote).append (hbrace (by decide))))

/-- Each way to write a character is read as the character. -/
lemma Spelling.unescape (h : Spelling quote c piece) (hquote : isQuote quote) (tail : List Char) :
    QmlCodeModel.unescape (piece ++ tail) = c :: QmlCodeModel.unescape tail := by
  cases h with
  | plain h => exact unescape_char h.2.1
  | letter h =>
    simp only [List.cons_append,List.nil_append]
    rw [unescape_escape,readEscape_letter h]
    rfl
  | escaped h =>
    have hread : readEscape (c :: tail) = ([c],tail) := by
      obtain rfl | rfl := h
      · obtain rfl | rfl := isQuote_cases hquote <;> rfl
      · rfl
    simp only [List.cons_append,List.nil_append]
    rw [unescape_escape,hread]
    rfl
  | byte h hlength => exact (unescape_byte hlength).trans (by rw [h.charOfHex_toNat]; rfl)
  | unit h hlength => exact (unescape_unit h.brace_head?_ne hlength).trans (by rw [h.charOfHex_toNat]; rfl)
  | braced h =>
    simp only [List.cons_append,List.append_assoc,List.nil_append]
    rw [unescape_braced h.brace_notMem.2,h.charOfHex_toNat]
    rfl

/-! Whole strings. -/

/-- By induction on the string. -/
lemma Spelled.stringBody (h : Spelled quote s text) (hquote : isQuote quote) : StringBody quote text := by
  induction h with
  | nil => exact .nil
  | cons first _ ih => exact (first.stringBody hquote).append ih

/-- By induction on the string. -/
lemma Spelled.unescape (h : Spelled quote s text) (hquote : isQuote quote) :
    QmlCodeModel.unescape text = s := by
  induction h with
  | nil => exact unescape_nil
  | cons first _ ih => rw [first.unescape hquote,ih]

/-- Reading a string undoes writing it: the text between the quotes is one token with all its escapes, and its
value is the string. -/
theorem stringValue_spelled (hquote : isQuote quote) (h : Spelled quote s text) :
    IsToken .string (stringLiteral quote text) ∧ stringValue (stringLiteral quote text) = s :=
  ⟨(isToken_stringLiteral_iff hquote).mpr (h.stringBody hquote),
    (stringValue_stringLiteral hquote).trans (h.unescape hquote)⟩

/-- A backslash in the end, behind which the closing quote closes. -/
theorem stringValue_spelled_backslash : isQuote '\'' ∧ Spelled '\'' "A'\n\\".toList "\\u\x7b0041\x7d\\x27\\n\\\\".toList ∧
    IsToken .string "'\\u\x7b0041\x7d\\x27\\n\\\\'".toList ∧
      stringValue "'\\u\x7b0041\x7d\\x27\\n\\\\'".toList = "A'\n\\".toList := by
  have hdigit (value : Nat) {c : Char} (h : (hexDigits false)[value]? = some c) : HexDigit c value := ⟨false,h⟩
  have hzeros : HexNumeral ['0','0'] 0 := .next (.digit (hdigit 0 rfl)) (hdigit 0 rfl)
  have hletter : HexNumeral ['0','0','4','1'] 0x41 := .next (.next hzeros (hdigit 4 rfl)) (hdigit 1 rfl)
  have hquote : HexNumeral ['2','7'] 0x27 := .next (.digit (hdigit 2 rfl)) (hdigit 7 rfl)
  have hspelled : Spelled '\'' ['A','\'','\n','\\'] _ :=
    .cons (.braced hletter) (.cons (.byte hquote rfl) (.cons (.letter (by decide : ('n','\n') ∈ escapeLetters))
      (.cons (.escaped (.inr rfl)) .nil)))
  exact ⟨rfl,hspelled,stringValue_spelled rfl hspelled⟩

end QmlCodeModel
