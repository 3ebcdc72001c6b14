import QmlCodeModel.Dialect
import QmlCodeModel.Proofs.Grammar.Operators.Reading
import QmlCodeModel.Proofs.Sketch.Parts
import QmlCodeModel.Proofs.Token.Spelling

/-! JSON strings in ASCII, as documents of their own. They are read as one string each, and characters that JSON
writes as two surrogates are lost from it. -/
namespace QmlCodeModel

/-! How such a string is written. -/

/-- What encoders differ in: the letters among the digits, and whether the control character behind the tilde is
escaped, for which JSON does not ask. -/
structure AsciiJson where
  capitals : Bool
  escapesDelete : Bool

/-- The sixteen-bit units of a character: one above the first 65536 has two. -/
def utf16Units (c : Char) : List Nat :=
  if c.toNat < 0x10000 then [c.toNat]
  else [0xd800 + (c.toNat - 0x10000) / 0x400, 0xdc00 + (c.toNat - 0x10000) % 0x400]

namespace AsciiJson

variable (style : AsciiJson)

/-- The characters that are written as they are. -/
def isPlain (c : Char) : Bool := ' ' ≤ c && (c ≤ '~' || (c == '\x7f' && !style.escapesDelete))

def unit (n : Nat) : List Char := '\\' :: 'u' :: hexUnit style.capitals n

def char (c : Char) : List Char :=
  if c == '"' || c == '\\' then ['\\', c]
  else if style.isPlain c then [c]
  else (utf16Units c).flatMap style.unit

def text (s : List Char) : List Char := stringLiteral '"' (s.flatMap style.char)

end AsciiJson

example : AsciiJson.text ⟨false, true⟩ "\"é😀".toList = "\"\\\"\\u00e9\\ud83d\\ude00\"".toList := by decide +kernel

/-! What it is read as. -/

namespace AsciiJson

variable {style : AsciiJson} {c : Char} {n : Nat} {s tail : List Char}

lemma stringBody_unit (hn : n < 65536) : StringBody '"' (style.unit n) :=
  (StringBody.escape (by decide : 'u' ≠ '\r')).append ((hexNumeral_hexUnit style.capitals hn).stringBody rfl)

lemma unescape_unit (hn : n < 65536) :
    unescape (style.unit n ++ tail) = (if n.isValidChar then [Char.ofNat n] else []) ++ unescape tail := by
  have hnumeral := hexNumeral_hexUnit style.capitals hn
  rw [← hnumeral.charOfHex (by omega)]
  exact QmlCodeModel.unescape_unit hnumeral.brace_head?_ne rfl

lemma toNat_of_isPlain (h : style.isPlain c) : 32 ≤ c.toNat ∧ c.toNat ≤ 127 := by
  simp only [isPlain,Bool.and_eq_true,Bool.or_eq_true,decide_eq_true_eq,beq_iff_eq,Char.le_def,
    UInt32.le_iff_toNat_le] at h
  obtain ⟨hlow,hhigh | ⟨rfl,-⟩⟩ := h
  · exact ⟨hlow,Nat.le_succ_of_le hhigh⟩
  · decide

lemma isLineTerminator_of_isPlain (h : style.isPlain c) : isLineTerminator c = false := by
  rw [Bool.eq_false_iff]
  intro hline
  have hbounds := toNat_of_isPlain h
  simp only [isLineTerminator,Bool.or_eq_true,beq_iff_eq] at hline
  obtain ((rfl | rfl) | rfl) | rfl := hline <;> exact absurd hbounds (by decide)

/-- A character of one unit is written in one of the ways in which strings are. -/
lemma spelling_char (hc : c.toNat < 0x10000) : Spelling '"' c (style.char c) := by
  unfold char
  split
  · rename_i hescaped
    exact .escaped (by simpa using hescaped)
  · rename_i hescaped
    simp only [Bool.or_eq_true,beq_iff_eq,not_or] at hescaped
    split
    · rename_i hplain
      exact .plain ⟨hescaped.1,hescaped.2,isLineTerminator_of_isPlain hplain⟩
    · simp only [utf16Units,hc,if_true,List.flatMap_singleton]
      exact .unit (hexNumeral_hexUnit style.capitals hc) rfl

/-- A character of two units is written as two surrogates. -/
lemma char_of_pair (style : AsciiJson) (hc : ¬c.toNat < 0x10000) :
    ∃ high low, style.char c = style.unit high ++ style.unit low ∧ (high < 65536 ∧ ¬high.isValidChar) ∧
      low < 65536 ∧ ¬low.isValidChar := by
  have hbound : c.toNat < 0x110000 := by
    have hvalid : c.toNat.isValidChar := c.valid
    unfold Nat.isValidChar at hvalid
    omega
  have hescaped : (c == '"' || c == '\\') = false := by
    rw [Bool.eq_false_iff]
    intro h
    simp only [Bool.or_eq_true,beq_iff_eq] at h
    obtain rfl | rfl := h <;> exact hc (by decide)
  have hplain : style.isPlain c = false := by
    rw [Bool.eq_false_iff]
    intro h
    have := toNat_of_isPlain h
    omega
  refine ⟨0xd800 + (c.toNat - 0x10000) / 0x400,0xdc00 + (c.toNat - 0x10000) % 0x400,?_,?_,?_⟩
  · simp [char,hescaped,hplain,utf16Units,hc]
  · unfold Nat.isValidChar
    omega
  · unfold Nat.isValidChar
    omega

lemma stringBody_char (c : Char) : StringBody '"' (style.char c) := by
  by_cases hc : c.toNat < 0x10000
  · exact (spelling_char hc).stringBody rfl
  · obtain ⟨high,low,hchar,hhigh,hlow⟩ := char_of_pair style hc
    rw [hchar]
    exact (stringBody_unit hhigh.1).append (stringBody_unit hlow.1)

/-- A surrogate stands for nothing. -/
lemma unescape_char (c : Char) : unescape (style.char c ++ tail) =
    (if c.toNat < 0x10000 then [c] else []) ++ unescape tail := by
  by_cases hc : c.toNat < 0x10000
  · rw [if_pos hc,(spelling_char hc).unescape rfl]
    rfl
  · obtain ⟨high,low,hchar,hhigh,hlow⟩ := char_of_pair style hc
    rw [if_neg hc,hchar,List.append_assoc,unescape_unit hhigh.1,unescape_unit hlow.1,if_neg hhigh.2,if_neg hlow.2]
    rfl

lemma isToken_text (style : AsciiJson) (s : List Char) : IsToken .string (style.text s) := by
  refine (isToken_stringLiteral_iff rfl).mpr ?_
  induction s with
  | nil => exact .nil
  | cons c s ih => exact (stringBody_char c).append ih

/-- By induction on the string: of each character with two units nothing is left. -/
lemma stringValue_text (style : AsciiJson) (s : List Char) :
    stringValue (style.text s) = s.filter (·.toNat < 0x10000) := by
  rw [text,stringValue_stringLiteral rfl]
  induction s with
  | nil => exact unescape_nil
  | cons c s ih =>
    rw [List.flatMap_cons,unescape_char,ih]
    by_cases hc : c.toNat < 0x10000
    · simp [hc]
    · simp [hc]

end AsciiJson

/-! A source that is one string. -/

namespace Grammar

variable {go : Reader} {s : State} {depth : Nat} {token : Token}

/-- The state before a text that is one token. -/
lemma awaits_opening_of_isToken {kind : TokenKind} {text : List Char} (h : IsToken kind text) :
    (opening text).Awaits 0 [⟨kind,{},String.ofList text,false⟩] := by
  unfold opening initialState
  rw [h.1,h.2]
  exact ⟨rfl,rfl,rfl,rfl,rfl,rfl,rfl⟩

section

variable (hstring : token.kind = .string)
include hstring

lemma ends_readPrimary_string {tokens : List Token} (h : s.Awaits depth (token :: tokens)) :
    Ends [] (readPrimary go) s fun n t => n.kind = .string (Token.stringValue token) ∧ t.Awaits depth tokens := by
  have hpeek := h.peek_cons
  have hkind : s.peek.kind = .string := (congrArg Token.kind hpeek).trans hstring
  have hvalue : Token.stringValue s.peek = Token.stringValue token := by
    rw [← hpeek]
    rfl
  unfold readPrimary
  rw [ends_peek,hkind,hvalue]
  unfold leaf
  rw [ends_start,ends_skip]
  exact ends_finish_awaits h.advance

/-- No level of the grammar adds anything to a string with which the source ends. -/
lemma ends_readAssignment_string (levels : Nat) (hdepth : depth < maxNesting) (h : s.Awaits depth [token]) :
    Ends [] (readAssignment (readWithin (levels + 1))) s fun n t =>
      n.kind = .string (Token.stringValue token) ∧ t.Awaits depth [] := by
  have hkind : s.peek.kind = .string := (congrArg Token.kind h.peek_cons).trans hstring
  have hname (text : String) : s.peek.isName text = false := by simp [Token.isName,hkind]
  have hpunct (text : String) : s.peek.isPunct text = false := by simp [Token.isPunct,hkind]
  have hquiet {t : State} (ht : t.Awaits depth []) : Quiet t.peek := quiet_of_eof ht.peek_nil
  have hoperand : Ends [] (operand (readWithin (levels + 1))) s fun n t =>
      n.kind = .string (Token.stringValue token) ∧ t.Awaits depth [] :=
    ends_operand_plain (hname _) (fun n t ht => (hquiet ht.2).endsOperand)
      (ends_nested_awaits h hdepth fun s hs => ends_readPrimary_string hstring hs)
  have hunary := ends_readUnary_plain (by simp [Token.isUnaryOperator,hkind]) (by simp [Token.isStep,hpunct])
    (by rw [hname,Bool.and_false]) (fun n t ht => (hquiet ht.2).endsOperand.isStep) hoperand
  have hbinary : Ends [] (readBinary (readWithin (levels + 1)) 0) s fun n t =>
      n.kind = .string (Token.stringValue token) ∧ t.Awaits depth [] := by
    unfold readBinary
    rw [ends_start]
    refine hunary.bind fun n t ht => ?_
    unfold Ends
    rw [iterate_none (extendBinary_quiet (hquiet ht.2))]
    exact ht
  have harrow : s.arrowHeadAt 0 = none := by
    have hzero : s.ahead 0 = s.peek := rfl
    simp [State.arrowHeadAt,State.arrowListAt,hzero,Token.isBindable,hkind,hpunct]
  apply ends_readAssignment_plain (by simp [State.startsAsyncArrow,hname]) harrow (by rw [hname,Bool.and_false])
  exact ends_plainAssignment_plain
    (fun n t ht => ⟨(hquiet ht.2).punct "?" (by decide),(hquiet ht.2).assignment⟩) hbinary

lemma ends_readSingleExpression_string (levels : Nat) (h : s.Awaits 0 [token]) :
    Ends [] (readSingleExpression (readWithin (levels + 2))) s fun n t =>
      n.kind = .string (Token.stringValue token) ∧ t.Awaits 0 [] := by
  have hkind : s.peek.kind = .string := (congrArg Token.kind h.peek_cons).trans hstring
  apply ends_readSingleExpression_plain (by rw [hkind]; nofun) fun n t ht => ht.2.peek_nil
  apply ends_expression_plain fun n t ht => by simp [Token.isPunct,ht.2.peek_nil]
  refine ends_nested_awaits h (by decide) fun s hs => ?_
  exact ends_readAssignment_string hstring levels (by decide) hs

end

/-- A text that is one string token is read as an expression that is the string with its value. -/
theorem parse?_of_isToken_string {text : List Char} (h : IsToken .string text) :
    ∃ p, parse? .expression (String.ofList text) = some p ∧ p.diagnostics = [] ∧
      p.root.kind = .string (String.ofList (stringValue text)) := by
  have hawaits := awaits_opening_of_isToken h
  refine exists_parse_expression (fun n => n.kind = .string (String.ofList (stringValue text))) fun levels _ => ?_
  rw [String.toList_ofList]
  have hread := ends_readSingleExpression_string rfl levels hawaits
  rw [Token.stringValue,String.toList_ofList] at hread
  exact hread.mono fun n t ht => ⟨ht.1,ht.2.diagnostics⟩

end Grammar

/-- A string that is written as JSON in ASCII is read as a JSON document without a complaint, and the document is
a string: the one that was written without its characters of two units. So it is the one that was written exactly
if it has no such characters. -/
theorem parse?_asciiJson (style : AsciiJson) (s : List Char) :
    ∃ p, parse? Dialect.json.form (String.ofList (style.text s)) = some p ∧ p.success ∧
      p.root.kind = .string (String.ofList (s.filter (·.toNat < 0x10000))) ∧
      (p.root.kind = .string (String.ofList s) ↔ ∀ c ∈ s, c.toNat < 0x10000) := by
  obtain ⟨p,hp,hdiagnostics,hroot⟩ := Grammar.parse?_of_isToken_string (style.isToken_text s)
  rw [style.stringValue_text s] at hroot
  refine ⟨p,hp,by simp [Parse.success,hdiagnostics],hroot,?_⟩
  rw [hroot,Kind.string.injEq,String.ofList_inj,List.filter_eq_self]
  simp

/-- A character of two units is lost. -/
theorem asciiJson_loses_pair : ∃ p,
    parse? Dialect.json.form (String.ofList (AsciiJson.text ⟨false,true⟩ ['😀'])) = some p ∧
      p.root.kind ≠ .string (String.ofList ['😀']) := by
  obtain ⟨p,hp,-,hroot⟩ := Grammar.parse?_of_isToken_string (AsciiJson.isToken_text ⟨false,true⟩ ['😀'])
  have hvalue : ['😀'].filter (·.toNat < 0x10000) = [] := by decide
  rw [AsciiJson.stringValue_text,hvalue] at hroot
  refine ⟨p,hp,?_⟩
  rw [hroot,ne_eq,Kind.string.injEq,String.ofList_inj]
  nofun

end QmlCodeModel
