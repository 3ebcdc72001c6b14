import QmlCodeModel.Proofs.Token.Template
import QmlCodeModel.Token.StringValue

/-! Quoted strings. A string is one token exactly if its inside is a `StringBody`, behind which the reader
stands as it stood before. -/
namespace QmlCodeModel

def stringLiteral (quote : Char) (body : List Char) : List Char := quote :: (body ++ [quote])

/-- What follows an opening quote is a string to its end, with the closing quote. -/
def IsComplete (quote : Char) (text : List Char) : Prop := readString quote text = ⟨text,[],true⟩

/-- A text inside a string: the reader takes it, and reads on as if it had just begun. -/
def StringBody (quote : Char) (text : List Char) : Prop :=
  ∀ tail, readString quote (text ++ tail) = (readString quote tail).prepend text

variable {quote c : Char} {text tail : List Char}

lemma isQuote_cases (h : isQuote quote) : quote = '"' ∨ quote = '\'' := by
  simpa [isQuote] using h

lemma ne_of_isQuote {d : Char} (h : isQuote quote) (hd : isQuote d = false) : d ≠ quote := by
  rintro rfl
  simp [h] at hd

lemma isComplete_singleton (h : isQuote quote) : IsComplete quote [quote] := by
  obtain rfl | rfl := isQuote_cases h <;> rfl

lemma not_isComplete_nil : ¬IsComplete quote [] := nofun

/-! What may stand inside a string. -/

namespace StringBody

lemma nil : StringBody quote [] := fun _ => rfl

lemma append (h : StringBody quote text) (htail : StringBody quote tail) : StringBody quote (text ++ tail) := by
  intro later
  rw [List.append_assoc,h,htail,Cut.prepend_prepend]

lemma char (hc : c ≠ quote ∧ c ≠ '\\' ∧ isLineTerminator c = false) : StringBody quote [c] := by
  intro tail
  rw [List.singleton_append,readString_cons hc.2.1]
  simp [hc.1,hc.2.2]

lemma escape (hc : c ≠ '\r') : StringBody quote ['\\',c] := by
  intro tail
  change readString quote ('\\' :: c :: tail) = _
  rw [readString]
  · rintro d rest rfl -
    exact hc rfl
  · rintro rfl -
    exact hc rfl

/-- An escaped carriage return takes one more character along. -/
lemma escapedReturn (c : Char) : StringBody quote ['\\','\r',c] := by
  intro tail
  change readString quote ('\\' :: '\r' :: c :: tail) = _
  rw [readString]

lemma of_forall (h : ∀ c ∈ text, c ≠ quote ∧ c ≠ '\\' ∧ isLineTerminator c = false) : StringBody quote text := by
  induction text with
  | nil => exact nil
  | cons c text ih =>
    obtain ⟨hc,htext⟩ := List.forall_mem_cons.mp h
    exact (char hc).append (ih htext)

lemma isComplete_append (h : StringBody quote text) :
    IsComplete quote (text ++ tail) ↔ IsComplete quote tail := by
  unfold IsComplete
  rw [h]
  generalize readString quote tail = cut
  obtain ⟨taken,rest,closed⟩ := cut
  simp [Cut.prepend]

lemma append_iff (h : StringBody quote text) : StringBody quote (text ++ tail) ↔ StringBody quote tail := by
  constructor
  · intro hboth later
    have hread := hboth later
    rw [List.append_assoc,h,← Cut.prepend_prepend] at hread
    generalize readString quote (tail ++ later) = cut at hread ⊢
    obtain ⟨taken,rest,closed⟩ := cut
    simpa [Cut.prepend] using hread
  · exact h.append

end StringBody

/-- By induction on the reading: where a string goes on behind a text, and would not do so without the next
character, the reader has not put this character to an escape, so that it stands behind the text as before. -/
lemma stringBody_of_isComplete {later : List Char} (hquotes : isQuote quote) (hc : c ≠ '\r')
    (hlater : ¬IsComplete quote later)
    (h : IsComplete quote (text ++ c :: later)) : StringBody quote text := by
  fun_induction readString quote text with
  | case1 => exact .nil
  | case2 d rest ih =>
    have hescape : StringBody quote ['\\','\r',d] := .escapedReturn d
    exact hescape.append (ih (hescape.isComplete_append.mp h))
  | case3 => exact absurd ((StringBody.escapedReturn c).isComplete_append.mp h) hlater
  | case4 d rest hreturn hend ih =>
    have hd : d ≠ '\r' := by
      rintro rfl
      cases rest with
      | nil => exact hend rfl rfl
      | cons e rest => exact hreturn e rest rfl rfl
    exact (StringBody.escape hd).append (ih ((StringBody.escape hd).isComplete_append.mp h))
  | case5 d rest hreturn hend hescape hline =>
    have hd : d ≠ '\\' := by
      rintro rfl
      exact absurd hline (by decide)
    simp [IsComplete,readString_cons hd,hline] at h
  | case6 d rest hreturn hend hescape hline hquote =>
    obtain rfl : d = quote := by simpa using hquote
    simp [IsComplete,readString_cons (ne_of_isQuote hquotes (by decide)).symm,hline] at h
  | case7 d rest hreturn hend hescape hline hquote ih =>
    by_cases hd : d = '\\'
    · subst hd
      cases rest with
      | nil => exact absurd ((StringBody.escape hc).isComplete_append.mp h) hlater
      | cons e rest => exact absurd rfl (hescape e rest rfl)
    · have hplain : StringBody quote [d] := .char ⟨by simpa using hquote,hd,Bool.eq_false_iff.mpr hline⟩
      exact hplain.append (ih (hplain.isComplete_append.mp h))

/-! The token of a string. -/

lemma readLexeme_quote {allowed : Bool} (h : isQuote quote) : readLexeme allowed quote text =
    Lexeme.ofCut .string .unterminatedString quote (readString quote text) := by
  have hsolid : Solid quote ∧ isNameStart quote = false ∧ quote.isDigit = false ∧ quote ≠ '.' := by
    obtain rfl | rfl := isQuote_cases h
    · exact ⟨⟨by decide,by decide,by decide,by decide⟩,by decide +kernel,by decide,by decide⟩
    · exact ⟨⟨by decide,by decide,by decide,by decide⟩,by decide +kernel,by decide,by decide⟩
  obtain ⟨hsolid,hname,hdigit,hdot⟩ := hsolid
  rw [hsolid.readLexeme]
  simp [readToken,hname,startsNumber,hdigit,hdot,isQuote_cases h]

/-- Between quotes a text is one string token exactly if it may stand inside a string. -/
theorem isToken_stringLiteral_iff {body : List Char} (h : isQuote quote) :
    IsToken .string (stringLiteral quote body) ↔ StringBody quote body := by
  have hread : IsToken .string (stringLiteral quote body) ↔ IsComplete quote (body ++ [quote]) := by
    rw [stringLiteral,isToken_cons_iff,readLexeme_quote h,ofCut_eq_iff,IsComplete]
  rw [hread]
  constructor
  · exact stringBody_of_isComplete h (ne_of_isQuote h (by decide)).symm not_isComplete_nil
  · exact fun hbody => hbody.isComplete_append.mpr (isComplete_singleton h)

/-! The value of a string. -/

lemma unescape_nil : unescape [] = [] := by rw [unescape]

lemma unescape_char (hc : c ≠ '\\') : unescape (c :: tail) = c :: unescape tail := by
  rw [unescape,if_neg (by simpa using hc)]

lemma unescape_escape : unescape ('\\' :: tail) = (readEscape tail).1 ++ unescape (readEscape tail).2 := by
  rw [unescape,if_pos (by decide)]

/-- The letters that stand for another character behind a backslash. -/
def escapeLetters : List (Char × Char) :=
  [('n','\n'),('t','\t'),('r','\r'),('b','\x08'),('f','\x0c'),('v','\x0b'),('0','\x00')]

lemma readEscape_letter {p : Char × Char} (h : p ∈ escapeLetters) : readEscape (p.1 :: tail) = ([p.2],tail) := by
  have hall : ∀ p ∈ escapeLetters, readEscape (p.1 :: tail) = ([p.2],tail) := by simp [escapeLetters,readEscape]
  exact hall p h

/-- An escape of one character does not depend on what follows, unless a line feed follows a carriage return. -/
lemma readEscape_single (hc : c ≠ 'x' ∧ c ≠ 'u') (hreturn : c = '\r' → tail.head? ≠ some '\n') :
    readEscape (c :: tail) = ((readEscape [c]).1,tail) := by
  by_cases hletter : c ∈ escapeLetters.map Prod.fst
  · obtain ⟨p,hp,rfl⟩ := List.mem_map.mp hletter
    rw [readEscape_letter hp,readEscape_letter hp]
  · have hother (rest : List Char) (hrest : c = '\r' → rest.head? ≠ some '\n') : readEscape (c :: rest) =
        (if c == '\r' || c == '\n' || c == '\u2028' || c == '\u2029' then [] else [c],rest) := by
      unfold readEscape
      split
      all_goals rename_i heq
      all_goals cases heq
      case h_9 => exact absurd rfl hc.1
      case h_10 | h_11 => exact absurd rfl hc.2
      case h_12 => exact absurd rfl (hrest rfl)
      case h_13 => rfl
      all_goals exact absurd (by decide) hletter
    rw [hother tail hreturn,hother [] (by simp)]

lemma unescape_byte {digits : List Char} (hlength : digits.length = 2) :
    unescape ('\\' :: 'x' :: (digits ++ tail)) = charOfHex digits ++ unescape tail := by
  rw [unescape_escape,readEscape]
  simp [← hlength]

lemma unescape_unit {digits : List Char} (hbrace : digits.head? ≠ some '\x7b') (hlength : digits.length = 4) :
    unescape ('\\' :: 'u' :: (digits ++ tail)) = charOfHex digits ++ unescape tail := by
  rw [unescape_escape,readEscape]
  · simp [← hlength]
  · intro rest heq
    cases digits with
    | nil => cases hlength
    | cons d digits => exact hbrace (congrArg some (List.cons.inj heq).1)

lemma unescape_braced {digits : List Char} (hbrace : '\x7d' ∉ digits) :
    unescape ('\\' :: 'u' :: '\x7b' :: (digits ++ '\x7d' :: tail)) = charOfHex digits ++ unescape tail := by
  have hdigits : ∀ d ∈ digits, (d != '\x7d') = true := fun d hd => bne_iff_ne.mpr fun heq => hbrace (heq ▸ hd)
  rw [unescape_escape,readEscape,List.takeWhile_append_of_pos hdigits,List.dropWhile_append_of_pos hdigits]
  simp

lemma stringValue_stringLiteral {body : List Char} (h : isQuote quote) :
    stringValue (stringLiteral quote body) = unescape body := by
  simp only [isQuote] at h
  simp [stringValue,stringLiteral,dropQuotes,h]

end QmlCodeModel
