import QmlCodeModel.Proofs.Token.Quoted

/-! Line continuations, which are a backslash and the end of a line. They add nothing to the value of a string.
The reader takes them as the value does, but for a carriage return alone: there it takes one more character. -/
namespace QmlCodeModel

/-- What ends a line. -/
def lineEnds : List (List Char) := [['\n'],['\r'],['\r','\n'],['\u2028'],['\u2029']]

/-- A text of whole characters and whole escapes, before another one: where it ends is inside no escape. -/
inductive Settled (after : List Char) : List Char → Prop
  | nil : Settled after []
  | char {c : Char} {rest : List Char} (hc : c ≠ '\\') (later : Settled after rest) : Settled after (c :: rest)
  | single {c : Char} {rest : List Char} (hc : c ≠ 'x' ∧ c ≠ 'u')
      (hreturn : c = '\r' → (rest ++ after).head? ≠ some '\n') (later : Settled after rest) :
      Settled after ('\\' :: c :: rest)
  | lineBreak {rest : List Char} (later : Settled after rest) : Settled after ('\\' :: '\r' :: '\n' :: rest)
  | byte {digits rest : List Char} (hlength : digits.length = 2) (later : Settled after rest) :
      Settled after ('\\' :: 'x' :: (digits ++ rest))
  | unit {digits rest : List Char} (hbrace : digits.head? ≠ some '\x7b') (hlength : digits.length = 4)
      (later : Settled after rest) : Settled after ('\\' :: 'u' :: (digits ++ rest))
  | braced {digits rest : List Char} (hbrace : '\x7d' ∉ digits) (later : Settled after rest) :
      Settled after ('\\' :: 'u' :: '\x7b' :: (digits ++ '\x7d' :: rest))

/-- The string with a line continuation between two parts of its inside. -/
def continuedLiteral (quote : Char) (before lineEnd after : List Char) : List Char :=
  stringLiteral quote (before ++ '\\' :: (lineEnd ++ after))

variable {quote : Char} {before after lineEnd : List Char}

/-! The value. -/

lemma head?_ne_of_append {rest : List Char} {c : Char} (h : (rest ++ after).head? ≠ some c) :
    rest.head? ≠ some c := by
  cases rest with
  | nil => simp
  | cons d rest => exact h

/-- By induction on the text before: behind whole escapes a string is read as if it began there. -/
lemma Settled.unescape (h : Settled after before) :
    QmlCodeModel.unescape (before ++ after) = QmlCodeModel.unescape before ++ QmlCodeModel.unescape after := by
  induction h with
  | nil => rw [unescape_nil]; rfl
  | char hc _ ih => rw [List.cons_append,unescape_char hc,unescape_char hc,ih,List.cons_append]
  | single hc hreturn _ ih =>
    rw [List.cons_append,List.cons_append,unescape_escape,unescape_escape,readEscape_single hc hreturn,
      readEscape_single hc fun hc => head?_ne_of_append (hreturn hc),ih,List.append_assoc]
  | lineBreak _ ih =>
    rw [unescape_escape]
    exact (unescape_escape.trans ih)
  | byte hlength _ ih =>
    rw [unescape_byte hlength,List.append_assoc,← ih,← unescape_byte hlength,List.cons_append,List.cons_append,
      List.append_assoc]
  | unit hbrace hlength _ ih =>
    rw [unescape_unit hbrace hlength,List.append_assoc,← ih,← unescape_unit hbrace hlength,List.cons_append,
      List.cons_append,List.append_assoc]
  | braced hbrace _ ih =>
    rw [unescape_braced hbrace,List.append_assoc,← ih,← unescape_braced hbrace]
    simp

/-- Before a text without a line feed in front, a text is settled if it was so before another one. -/
lemma Settled.mono {later : List Char} (h : Settled after before) (hlater : later.head? ≠ some '\n') :
    Settled later before := by
  induction h with
  | nil => exact .nil
  | char hc _ ih => exact .char hc ih
  | @single c rest hc hreturn _ ih =>
    refine .single hc (fun hr => ?_) ih
    cases rest with
    | nil => exact hlater
    | cons d rest => exact hreturn hr
  | lineBreak _ ih => exact .lineBreak ih
  | byte hlength _ ih => exact .byte hlength ih
  | unit hbrace hlength _ ih => exact .unit hbrace hlength ih
  | braced hbrace _ ih => exact .braced hbrace ih

/-- A line continuation stands for nothing. -/
lemma unescape_continuation (hend : lineEnd ∈ lineEnds) (hfeed : lineEnd = ['\r'] → after.head? ≠ some '\n') :
    unescape ('\\' :: (lineEnd ++ after)) = unescape after := by
  have hsingle {c : Char} (hc : c ≠ 'x' ∧ c ≠ 'u') (hnone : (readEscape [c]).1 = [])
      (hreturn : c = '\r' → after.head? ≠ some '\n') : unescape ('\\' :: ([c] ++ after)) = unescape after := by
    rw [List.singleton_append,unescape_escape,readEscape_single hc hreturn,hnone]
    rfl
  simp only [lineEnds,List.mem_cons,List.not_mem_nil,or_false] at hend
  obtain rfl | rfl | rfl | rfl | rfl := hend
  · exact hsingle (by decide) rfl nofun
  · exact hsingle (by decide) rfl fun _ => hfeed rfl
  · exact unescape_escape
  · exact hsingle (by decide) rfl nofun
  · exact hsingle (by decide) rfl nofun

/-! The token. -/

lemma isLineTerminator_of_mem_lineEnds (hend : lineEnd ∈ lineEnds) :
    ∃ c rest, lineEnd = c :: rest ∧ isLineTerminator c = true := by
  simp only [lineEnds,List.mem_cons,List.not_mem_nil,or_false] at hend
  obtain rfl | rfl | rfl | rfl | rfl := hend <;> exact ⟨_,_,rfl,by decide⟩

/-- A line continuation begins where the reader stands outside every escape. -/
lemma stringBody_before (hquote : isQuote quote) (hend : lineEnd ∈ lineEnds)
    (h : StringBody quote (before ++ '\\' :: (lineEnd ++ after))) : StringBody quote before := by
  obtain ⟨c,rest,rfl,hc⟩ := isLineTerminator_of_mem_lineEnds hend
  have hcomplete := h.isComplete_append.mpr (isComplete_singleton hquote)
  rw [List.append_assoc] at hcomplete
  refine stringBody_of_isComplete hquote (by decide) (fun hlater => ?_) hcomplete
  have hback : c ≠ '\\' := by
    rintro rfl
    exact absurd hc (by decide)
  simp [IsComplete,readString_cons hback,hc] at hlater

/-- The reader goes on behind the continuation. A carriage return alone takes one more character along. -/
lemma stringBody_continuation_iff (hquote : isQuote quote) (hend : lineEnd ∈ lineEnds)
    (hafter : StringBody quote after) : StringBody quote ('\\' :: (lineEnd ++ after)) ↔
      (lineEnd = ['\r'] → ∃ c later, after = c :: later ∧ StringBody quote later) := by
  have hsingle {c : Char} (hc : c ≠ '\r') : StringBody quote ('\\' :: ([c] ++ after)) :=
    (StringBody.escape hc).append hafter
  simp only [lineEnds,List.mem_cons,List.not_mem_nil,or_false] at hend
  obtain rfl | rfl | rfl | rfl | rfl := hend
  · exact iff_of_true (hsingle (by decide)) nofun
  · cases after with
    | nil =>
      refine iff_of_false (fun h => ?_) fun h => by simpa using h rfl
      have hcomplete := h.isComplete_append.mpr (isComplete_singleton hquote)
      exact not_isComplete_nil ((StringBody.escapedReturn quote).isComplete_append.mp hcomplete)
    | cons c later =>
      have hescape : StringBody quote ('\\' :: (['\r'] ++ c :: later)) ↔ StringBody quote later :=
        (StringBody.escapedReturn c).append_iff
      rw [hescape]
      constructor
      · exact fun h _ => ⟨c,later,rfl,h⟩
      · intro h
        obtain ⟨d,rest,heq,hrest⟩ := h rfl
        exact (List.cons.inj heq).2 ▸ hrest
  · exact iff_of_true ((StringBody.escapedReturn '\n').append hafter) nofun
  · exact iff_of_true (hsingle (by decide)) nofun
  · exact iff_of_true (hsingle (by decide)) nofun

/-- A line continuation outside every escape of a string never changes the value. The string remains one token
exactly if the part before the continuation is the inside of a string by itself and, where a carriage return
alone ends the line, the part behind it has a first character and is the inside of a string without it. -/
theorem continuation_transparent_iff (hquote : isQuote quote)
    (hliteral : IsToken .string (stringLiteral quote (before ++ after))) (hsettled : Settled after before)
    (hend : lineEnd ∈ lineEnds) (hfeed : lineEnd = ['\r'] → after.head? ≠ some '\n') :
    stringValue (continuedLiteral quote before lineEnd after) = stringValue (stringLiteral quote (before ++ after)) ∧
    (IsToken .string (continuedLiteral quote before lineEnd after) ↔
      IsToken .string (stringLiteral quote before) ∧
      (lineEnd = ['\r'] → ∃ c later, after = c :: later ∧ IsToken .string (stringLiteral quote later))) := by
  constructor
  · have hcontinued : Settled ('\\' :: (lineEnd ++ after)) before := hsettled.mono (by simp)
    rw [continuedLiteral,stringValue_stringLiteral hquote,stringValue_stringLiteral hquote,hcontinued.unescape,
      unescape_continuation hend hfeed,hsettled.unescape]
  · simp only [continuedLiteral,isToken_stringLiteral_iff hquote] at hliteral ⊢
    constructor
    · intro h
      have hbefore := stringBody_before hquote hend h
      have hafter := hbefore.append_iff.mp hliteral
      exact ⟨hbefore,(stringBody_continuation_iff hquote hend hafter).mp (hbefore.append_iff.mp h)⟩
    · rintro ⟨hbefore,hreturn⟩
      have hafter := hbefore.append_iff.mp hliteral
      exact hbefore.append ((stringBody_continuation_iff hquote hend hafter).mpr hreturn)

/-- A carriage return before an ordinary character and an escaped quote. -/
theorem continuation_transparent_before_letter :
    IsToken .string "\"a\\\"b\\\"\"".toList ∧ Settled "b\\\"".toList "a\\\"".toList ∧
      stringValue "\"a\\\"\\\rb\\\"\"".toList = stringValue "\"a\\\"b\\\"\"".toList ∧
      IsToken .string "\"a\\\"\\\rb\\\"\"".toList := by
  have hliteral : IsToken .string (stringLiteral '"' (['a','\\','"'] ++ ['b','\\','"'])) := by decide +kernel
  have hsettled : Settled ['b','\\','"'] ['a','\\','"'] :=
    .char (by decide) (.single (by decide) (by decide) .nil)
  obtain ⟨hvalue,htoken⟩ :=
    continuation_transparent_iff rfl hliteral hsettled (show ['\r'] ∈ lineEnds by decide) (by decide)
  exact ⟨hliteral,hsettled,hvalue,htoken.mpr ⟨by decide +kernel,fun _ => ⟨'b',_,rfl,by decide +kernel⟩⟩⟩

/-- A carriage return at the end of a string takes the closing quote along. -/
theorem continuation_takes_quote : IsToken .string "\"a\"".toList ∧ Settled [] ['a'] ∧
    ¬IsToken .string (continuedLiteral '"' ['a'] ['\r'] []) :=
  ⟨by decide +kernel,.char (by decide) .nil,by decide +kernel⟩

end QmlCodeModel
