import QmlCodeModel.Proofs.Token.Normal

/-! Numeric literals by a grammar with rules for its digits. The texts that are read as one number are those of the
reader's own rules. The literals of the language are among them exactly where no separator stands in an exponent. -/
namespace QmlCodeModel

/-- Digits with single separators, each between two digits. -/
inductive DigitRun (test : Char → Bool) : List Char → Prop
  | digit {c : Char} (hc : test c) : DigitRun test [c]
  | next {c : Char} {rest : List Char} (hc : test c) (later : DigitRun test rest) : DigitRun test (c :: rest)
  | separated {c : Char} {rest : List Char} (hc : test c) (later : DigitRun test rest) :
      DigitRun test (c :: '_' :: rest)

/-- What may stand where in a number. -/
structure NumberRules where
  /-- The digits that a number starts with, or that follow a point at its start. -/
  digits : List Char → Prop
  /-- What follows a point behind digits. -/
  fraction : List Char → Prop
  exponent : List Char → Prop
  /-- What follows a zero and the letter of a radix. -/
  radix : Char → List Char → Prop
  /-- The suffix of big integers may stand behind a fraction or an exponent. -/
  suffixAnywhere : Prop

section

variable (rules : NumberRules)

inductive Mantissa : List Char → Prop
  | whole {digits : List Char} (h : rules.digits digits) : Mantissa digits
  | point {digits fraction : List Char} (h : rules.digits digits) (hfraction : rules.fraction fraction) :
      Mantissa (digits ++ '.' :: fraction)
  | leading {digits : List Char} (h : rules.digits digits) : Mantissa ('.' :: digits)

inductive Exponent : List Char → Prop
  | none : Exponent []
  | some {letter : Char} {sign digits : List Char} (hletter : letter = 'e' ∨ letter = 'E')
      (hsign : sign ∈ [[],['+'],['-']]) (h : rules.exponent digits) : Exponent (letter :: (sign ++ digits))

/-- A number of the grammar. -/
inductive NumberText : List Char → Prop
  | radix {letter : Char} {digits suffix : List Char} (hletter : isRadixLetter letter)
      (h : rules.radix letter digits) (hsuffix : suffix = [] ∨ suffix = ['n']) :
      NumberText ('0' :: letter :: (digits ++ suffix))
  | bigInteger {digits : List Char} (h : rules.digits digits) : NumberText (digits ++ ['n'])
  | decimal {mantissa exponent suffix : List Char} (h : Mantissa rules mantissa)
      (hexponent : Exponent rules exponent) (hsuffix : suffix = [] ∨ rules.suffixAnywhere ∧ suffix = ['n']) :
      NumberText (mantissa ++ (exponent ++ suffix))

end

/-- The digits of the radix that a letter names. -/
def isDigitOf (letter c : Char) : Bool :=
  if letter == 'x' || letter == 'X' then isHexDigit c
  else if letter == 'o' || letter == 'O' then '0' ≤ c && c ≤ '7'
  else c == '0' || c == '1'

namespace NumberRules

/-- The rules of the language, for numbers that do not start with a zero and another digit. -/
def language : NumberRules where
  digits := DigitRun Char.isDigit
  fraction digits := digits = [] ∨ DigitRun Char.isDigit digits
  exponent := DigitRun Char.isDigit
  radix letter := DigitRun (isDigitOf letter)
  suffixAnywhere := False

/-- The rules of the language without separators in exponents. -/
def plainExponents : NumberRules :=
  { language with exponent := fun digits => DigitRun Char.isDigit digits ∧ '_' ∉ digits }

/-- The rules by which numbers are read: separators stand anywhere but in an exponent, every radix has the
hexadecimal digits, and every number may have the suffix. -/
def reader : NumberRules where
  digits digits := ∃ c rest, digits = c :: rest ∧ c.isDigit ∧ rest.all isDigitOrSeparator
  fraction digits := digits.all isDigitOrSeparator
  exponent digits := digits ≠ [] ∧ digits.all Char.isDigit
  radix _ digits := digits ≠ [] ∧ digits.all isHexDigitOrSeparator
  suffixAnywhere := True

/-- All that one set of rules allows is allowed by another one. -/
structure Within (rules wider : NumberRules) : Prop where
  digits {text : List Char} (h : rules.digits text) : wider.digits text
  fraction {text : List Char} (h : rules.fraction text) : wider.fraction text
  exponent {text : List Char} (h : rules.exponent text) : wider.exponent text
  radix {letter : Char} {text : List Char} (h : rules.radix letter text) : wider.radix letter text
  suffixAnywhere (h : rules.suffixAnywhere) : wider.suffixAnywhere

end NumberRules

variable {rules wider : NumberRules} {c : Char} {test : Char → Bool} {text tail mantissa exponent : List Char}

lemma Mantissa.mono (h : Mantissa rules text) (hdigits : ∀ t, rules.digits t → wider.digits t)
    (hfractions : ∀ t, rules.fraction t → wider.fraction t) : Mantissa wider text := by
  cases h with
  | whole h => exact .whole (hdigits _ h)
  | point h hfraction => exact .point (hdigits _ h) (hfractions _ hfraction)
  | leading h => exact .leading (hdigits _ h)

lemma Exponent.mono (h : Exponent rules text) (hwithin : rules.Within wider) : Exponent wider text := by
  cases h with
  | none => exact .none
  | some hletter hsign h => exact .some hletter hsign (hwithin.exponent h)

lemma NumberText.mono (h : NumberText rules text) (hwithin : rules.Within wider) : NumberText wider text := by
  cases h with
  | radix hletter h hsuffix => exact .radix hletter (hwithin.radix h) hsuffix
  | bigInteger h => exact .bigInteger (hwithin.digits h)
  | decimal h hexponent hsuffix =>
    refine .decimal (h.mono (fun _ => hwithin.digits) fun _ => hwithin.fraction) (hexponent.mono hwithin) ?_
    exact hsuffix.imp_right (.imp_left hwithin.suffixAnywhere)

/-! Runs of digits. -/

namespace DigitRun

lemma exists_cons (h : DigitRun test text) : ∃ c rest, text = c :: rest ∧ test c := by
  cases h with
  | digit hc => exact ⟨_,_,rfl,hc⟩
  | next hc _ => exact ⟨_,_,rfl,hc⟩
  | separated hc _ => exact ⟨_,_,rfl,hc⟩

lemma ne_nil (h : DigitRun test text) : text ≠ [] := by
  cases h <;> simp

lemma forall_mem (h : DigitRun test text) : ∀ c ∈ text, test c ∨ c = '_' := by
  induction h with
  | digit hc => simp [hc]
  | next hc _ ih => exact List.forall_mem_cons.mpr ⟨.inl hc,ih⟩
  | separated hc _ ih => exact List.forall_mem_cons.mpr ⟨.inl hc,List.forall_mem_cons.mpr ⟨.inr rfl,ih⟩⟩

lemma all_of {weak : Char → Bool} (h : DigitRun test text) (hweak : ∀ c, test c → weak c) (hseparator : weak '_') :
    text.all weak := by
  refine List.all_eq_true.mpr fun c hc => ?_
  obtain hc | rfl := h.forall_mem c hc
  · exact hweak c hc
  · exact hseparator

/-- Digits stand before the first separator. -/
lemma exists_of_mem (h : DigitRun test text) (htest : test '_' = false) (hmem : '_' ∈ text) :
    ∃ first later, text = first ++ '_' :: later ∧ first ≠ [] ∧ first.all test := by
  induction h with
  | @digit c hc =>
    obtain rfl : '_' = c := by simpa using hmem
    simp [htest] at hc
  | @next c rest hc _ ih =>
    obtain rfl | hmem := List.mem_cons.mp hmem
    · simp [htest] at hc
    · obtain ⟨first,later,rfl,-,hall⟩ := ih hmem
      exact ⟨c :: first,later,rfl,by simp,by simp [hc,hall]⟩
  | @separated c rest hc _ _ => exact ⟨[c],rest,rfl,by simp,by simp [hc]⟩

end DigitRun

/-! The rules compared. -/

lemma isDigitOrSeparator_of_isDigit (c : Char) (h : c.isDigit) : isDigitOrSeparator c := by
  simp [isDigitOrSeparator,h]

lemma isHexDigit_of_isDigitOf {letter : Char} (h : isDigitOf letter c) : isHexDigit c := by
  unfold isDigitOf at h
  split at h
  · exact h
  split at h
  · simp only [Bool.and_eq_true,decide_eq_true_eq,Char.le_def] at h
    have hdigit : c.isDigit := by
      simp only [Char.isDigit,Bool.and_eq_true,decide_eq_true_eq]
      exact ⟨h.1,UInt32.le_trans h.2 (by decide)⟩
    simp [isHexDigit,hdigit]
  · simp only [Bool.or_eq_true,beq_iff_eq] at h
    obtain rfl | rfl := h <;> decide

namespace NumberRules

lemma plainExponents_within_language : plainExponents.Within language :=
  ⟨id,id,And.left,id,id⟩

lemma plainExponents_within_reader : plainExponents.Within reader where
  digits {text} h := by
    obtain ⟨c,rest,rfl,hc⟩ := h.exists_cons
    refine ⟨c,rest,rfl,hc,?_⟩
    have hall := h.all_of isDigitOrSeparator_of_isDigit rfl
    rw [List.all_cons,Bool.and_eq_true] at hall
    exact hall.2
  fraction {text} h := by
    obtain rfl | h := h
    · rfl
    · exact h.all_of isDigitOrSeparator_of_isDigit rfl
  exponent {text} h := by
    refine ⟨h.1.ne_nil,List.all_eq_true.mpr fun c hc => (h.1.forall_mem c hc).resolve_right ?_⟩
    rintro rfl
    exact h.2 hc
  radix {letter text} h :=
    ⟨h.ne_nil,h.all_of (fun _ hc => by simp [isHexDigitOrSeparator,isHexDigit_of_isDigitOf hc]) rfl⟩
  suffixAnywhere := False.elim

lemma all_of_reader_digits (h : reader.digits text) : text.all isDigitOrSeparator := by
  obtain ⟨c,rest,rfl,hc,hrest⟩ := h
  rw [List.all_cons,isDigitOrSeparator_of_isDigit c hc,hrest]
  rfl

end NumberRules

/-! Numbers are read by the rules of the reader. -/

lemma Mantissa.read (h : Mantissa .reader mantissa) (htail : StopsBefore isDotOrDigit tail) :
    (Cut.ofWhile isDigitOrSeparator (mantissa ++ tail)).followedBy readFraction = ⟨mantissa,tail,true⟩ := by
  have hdigits : StopsBefore isDigitOrSeparator tail := htail.mono fun d hd => by simp [isDotOrDigit,hd]
  have hpoint {fraction : List Char} (hfraction : fraction.all isDigitOrSeparator) :
      readFraction ('.' :: (fraction ++ tail)) = ⟨'.' :: fraction,tail,true⟩ := by
    rw [readFraction,ofWhile_append hfraction hdigits]
    rfl
  cases h with
  | whole h =>
    rw [ofWhile_append (NumberRules.all_of_reader_digits h) hdigits]
    simp [Cut.followedBy,Cut.prepend,readFraction_of_stopsBefore htail]
  | @point digits fraction h hfraction =>
    have hdot : ∀ d ∈ ('.' :: (fraction ++ tail)).head?, isDigitOrSeparator d = false := by
      rintro d ⟨⟩
      rfl
    rw [List.append_assoc,List.cons_append,ofWhile_append (NumberRules.all_of_reader_digits h) hdot]
    simp [Cut.followedBy,Cut.prepend,hpoint hfraction]
  | @leading digits h =>
    have hnone : Cut.ofWhile isDigitOrSeparator ('.' :: (digits ++ tail)) = ⟨[],'.' :: (digits ++ tail),true⟩ := rfl
    rw [List.cons_append,hnone]
    simp [Cut.followedBy,Cut.prepend,hpoint (NumberRules.all_of_reader_digits h)]

lemma Exponent.read (h : Exponent .reader exponent) (hne : exponent ≠ []) (htail : StopsBefore Char.isDigit tail) :
    readExponent (exponent ++ tail) = ⟨exponent,tail,true⟩ := by
  cases h with
  | none => exact absurd rfl hne
  | @some letter sign digits hletter hsign h =>
    obtain ⟨hdigits,hall⟩ := h
    obtain ⟨d,rest,rfl⟩ := List.exists_cons_of_ne_nil hdigits
    have hd : d.isDigit := List.all_eq_true.mp hall d List.mem_cons_self
    have hsigned : readSign (sign ++ (d :: rest ++ tail)) = ⟨sign,d :: rest ++ tail,true⟩ := by
      simp only [List.mem_cons,List.not_mem_nil,or_false] at hsign
      obtain rfl | rfl | rfl := hsign
      · have hplain : ¬(d == '+' || d == '-') := by
          intro hd'
          simp only [Bool.or_eq_true,beq_iff_eq] at hd'
          obtain rfl | rfl := hd' <;> exact absurd hd (by decide)
        simp [readSign,hplain]
      · rfl
      · rfl
    have hletter' : (letter == 'e' || letter == 'E') = true := by simpa using hletter
    have hany : (sign ++ d :: rest).any Char.isDigit := by simp [hd]
    rw [List.cons_append,readExponent,List.append_assoc,hsigned]
    simp only [Cut.followedBy,ofWhile_append hall htail,Cut.prepend,hletter',hany]
    rfl

/-- What follows a mantissa starts with the letter of an exponent, or is none. -/
lemma Exponent.stopsBefore {test : Char → Bool} (h : Exponent rules exponent) (hsmall : test 'e' = false)
    (hlarge : test 'E' = false) : StopsBefore test exponent := by
  cases h with
  | none => simp [StopsBefore]
  | some hletter _ _ =>
    rintro d ⟨⟩
    obtain rfl | rfl := hletter
    · exact hsmall
    · exact hlarge

/-- A number ends before what is no digit, and without an exponent before what no number goes on with. -/
lemma readDecimal_append (h : Mantissa .reader mantissa) (hexponent : Exponent .reader exponent)
    (htail : StopsBefore Char.isDigit tail) (hnone : exponent = [] → StopsBefore continuesDigits tail) :
    readDecimal (mantissa ++ (exponent ++ tail)) = ⟨mantissa ++ exponent,tail,true⟩ := by
  obtain rfl | hne := eq_or_ne exponent []
  · have hstops := hnone rfl
    have hmantissa := h.read (hstops.mono fun d => continuesDigits_of_isDotOrDigit)
    rw [List.nil_append,readDecimal,hmantissa]
    simp [Cut.followedBy,Cut.prepend,readExponent_of_stopsBefore hstops]
  · have hstops : StopsBefore isDotOrDigit (exponent ++ tail) := by
      obtain ⟨d,later,rfl⟩ := List.exists_cons_of_ne_nil hne
      exact hexponent.stopsBefore rfl rfl
    rw [readDecimal,h.read hstops]
    simp [Cut.followedBy,Cut.prepend,hexponent.read hne htail]

lemma isRadixLetter_of_isDotOrDigit (h : isDotOrDigit c) : isRadixLetter c = false := by
  simp only [isDotOrDigit,isDigitOrSeparator,Bool.or_eq_true,beq_iff_eq] at h
  obtain rfl | hc | rfl := h
  · rfl
  · exact (solid_of_isDigit hc).2.2
  · rfl

/-- A mantissa starts a number and names no radix. -/
lemma Mantissa.exists_cons (h : Mantissa .reader mantissa) :
    ∃ c rest, mantissa = c :: rest ∧ (∀ tail, startsNumber c (rest ++ tail)) ∧ rest.all isDotOrDigit := by
  have hweak (digits : List Char) (hdigits : digits.all isDigitOrSeparator) : digits.all isDotOrDigit := by
    refine List.all_eq_true.mpr fun d hd => ?_
    simp [isDotOrDigit,List.all_eq_true.mp hdigits d hd]
  cases h with
  | whole h =>
    obtain ⟨c,rest,rfl,hc,hrest⟩ := h
    exact ⟨c,rest,rfl,fun tail => by simp [startsNumber,hc],hweak _ hrest⟩
  | point h hfraction =>
    obtain ⟨c,rest,rfl,hc,hrest⟩ := h
    refine ⟨c,_,rfl,fun tail => by simp [startsNumber,hc],?_⟩
    simp [hweak _ hrest,hweak _ hfraction,isDotOrDigit]
  | leading h =>
    obtain ⟨c,rest,rfl,hc,hrest⟩ := h
    refine ⟨'.',_,rfl,fun tail => by simp [startsNumber,hc],hweak _ ?_⟩
    exact NumberRules.all_of_reader_digits ⟨c,rest,rfl,hc,hrest⟩

lemma readDigits_append (h : Mantissa .reader mantissa) (hexponent : Exponent .reader exponent)
    (htail : StopsBefore Char.isDigit tail) (hnone : exponent = [] → StopsBefore continuesDigits tail)
    (hradix : StopsBefore isRadixLetter tail) :
    readDigits (mantissa ++ (exponent ++ tail)) = ⟨mantissa ++ exponent,tail,true⟩ := by
  rw [readDigits_of_not_radix,readDecimal_append h hexponent htail hnone]
  -- the second character is one of the mantissa, of the exponent or the first one behind them
  intro c later heq
  obtain ⟨d,rest,rfl,-,hrest⟩ := h.exists_cons
  obtain ⟨-,hlater⟩ := List.cons.inj heq
  have hmantissa : StopsBefore isRadixLetter rest := fun e he =>
    isRadixLetter_of_isDotOrDigit (List.all_eq_true.mp hrest e (List.mem_of_mem_head? he))
  have hstops := hmantissa.append ((hexponent.stopsBefore rfl rfl).append hradix)
  exact hstops c (congrArg List.head? hlater)

/-! What is read as a number follows the rules. -/

lemma exponent_readExponent (text : List Char) : Exponent .reader (readExponent text).taken := by
  fun_cases readExponent text with
  | case1 c rest number h =>
    simp only [Bool.and_eq_true,Bool.or_eq_true,beq_iff_eq] at h
    obtain ⟨hletter,hany⟩ := h
    have hsign : (readSign rest).taken ∈ [[],['+'],['-']] := by
      fun_cases readSign rest with
      | case1 c rest hc => simpa [or_comm] using hc
      | case2 => simp
      | case3 => simp
    have hplain : (readSign rest).taken.any Char.isDigit = false := by
      revert hsign
      generalize (readSign rest).taken = sign
      revert sign
      decide
    change Exponent .reader (c :: ((readSign rest).taken ++ (readSign rest).rest.takeWhile Char.isDigit))
    refine .some hletter hsign ⟨?_,List.all_takeWhile⟩
    intro hnil
    change ((readSign rest).taken ++ (readSign rest).rest.takeWhile Char.isDigit).any Char.isDigit at hany
    rw [hnil,List.append_nil,hplain] at hany
    cases hany
  | case2 => exact .none
  | case3 => exact .none

lemma mantissa_readFraction {rest : List Char} (h : startsNumber c rest) :
    Mantissa .reader ((Cut.ofWhile isDigitOrSeparator (c :: rest)).followedBy readFraction).taken := by
  by_cases hc : c.isDigit
  · have hdigits : NumberRules.reader.digits (c :: rest.takeWhile isDigitOrSeparator) :=
      ⟨c,_,rfl,hc,List.all_takeWhile⟩
    have hfirst : Cut.ofWhile isDigitOrSeparator (c :: rest) =
        ⟨c :: rest.takeWhile isDigitOrSeparator,rest.dropWhile isDigitOrSeparator,true⟩ := by
      simp [Cut.ofWhile,isDigitOrSeparator_of_isDigit c hc]
    rw [hfirst]
    simp only [Cut.followedBy,Cut.prepend]
    fun_cases readFraction (rest.dropWhile isDigitOrSeparator) with
    | case1 later => exact .point hdigits List.all_takeWhile
    | case2 => simpa using Mantissa.whole hdigits
  · obtain ⟨hdot,hhead⟩ : c = '.' ∧ rest.head?.any Char.isDigit := by simpa [startsNumber,hc] using h
    subst hdot
    obtain ⟨d,later,rfl⟩ : ∃ d later, rest = d :: later := by
      cases rest with
      | nil => cases hhead
      | cons d later => exact ⟨d,later,rfl⟩
    have hd : d.isDigit := by simpa using hhead
    have htaken : (d :: later).takeWhile isDigitOrSeparator = d :: later.takeWhile isDigitOrSeparator := by
      simp [isDigitOrSeparator_of_isDigit d hd]
    change Mantissa .reader ('.' :: (d :: later).takeWhile isDigitOrSeparator)
    rw [htaken]
    exact .leading ⟨d,_,rfl,hd,List.all_takeWhile⟩

lemma solid_of_startsNumber {rest : List Char} (h : startsNumber c rest) : Solid c ∧ isNameStart c = false := by
  by_cases hc : c.isDigit
  · obtain ⟨hsolid,hname,-⟩ := solid_of_isDigit hc
    exact ⟨hsolid,hname⟩
  · obtain ⟨rfl,-⟩ : c = '.' ∧ rest.head?.any Char.isDigit := by simpa [startsNumber,hc] using h
    exact ⟨⟨by decide,by decide +kernel,by decide,by decide⟩,by decide +kernel⟩

lemma startsNumber_of_readToken {allowed : Bool} {rest after : List Char}
    (h : readToken allowed c rest = (.token .number text [],after)) : startsNumber c rest := by
  by_contra hstart
  rw [readToken,if_neg hstart] at h
  split at h
  · cases h
  split at h
  · cases h
  split at h
  · cases h
  split at h
  · cases h
  split at h <;> cases h

/-- A text is read as one number exactly if a number starts there that ends with the text and lacks no digits. -/
lemma isToken_number_iff : IsToken .number text ↔ ∃ c rest, text = c :: rest ∧ startsNumber c rest ∧
    (readDigits text).closed ∧ (readBigSuffix (readDigits text).rest).rest = [] := by
  have hsplits : (readDigits text).taken ++
      ((readBigSuffix (readDigits text).rest).taken ++ (readBigSuffix (readDigits text).rest).rest) = text := by
    have hsuffix := splits_readBigSuffix (readDigits text).rest
    rw [Cut.Splits] at hsuffix
    rw [hsuffix]
    exact splits_readDigits text
  constructor
  · intro h
    cases text with
    | nil =>
      rw [isToken_iff,lexemes,lexemesFrom] at h
      cases h
    | cons c rest =>
      have htoken := readToken_of_isToken h
      have hstart := startsNumber_of_readToken htoken
      refine ⟨c,rest,rfl,hstart,?_⟩
      rw [readToken,if_neg (by simp [(solid_of_startsNumber hstart).2]),if_pos hstart] at htoken
      simp only [Prod.mk.injEq,Lexeme.token.injEq,true_and] at htoken
      obtain ⟨⟨htext,hfaults⟩,-⟩ := htoken
      obtain ⟨hclosed,htaken⟩ := taken_readNumber hfaults
      refine ⟨hclosed,?_⟩
      rw [htaken] at htext
      rw [← List.append_assoc,htext] at hsplits
      exact List.append_right_eq_self.mp hsplits
  · rintro ⟨c,rest,rfl,hstart,hclosed,hend⟩
    obtain ⟨hsolid,hname⟩ := solid_of_startsNumber hstart
    rw [isToken_cons_iff,hsolid.readLexeme,readToken,if_neg (by simp [hname]),if_pos hstart]
    rw [hend,List.append_nil] at hsplits
    simp [readNumber,NumberCut.taken,NumberCut.faults,hend,hclosed,readNameTail,hsplits]

lemma numberText_of_isToken (h : IsToken .number text) : NumberText .reader text := by
  obtain ⟨c,rest,rfl,hstart,hclosed,hend⟩ := isToken_number_iff.mp h
  have hsuffix : (readDigits (c :: rest)).rest = [] ∨ (readDigits (c :: rest)).rest = ['n'] := by
    revert hend
    fun_cases readBigSuffix (readDigits (c :: rest)).rest with
    | case1 =>
      rintro rfl
      exact .inr rfl
    | case2 => exact .inl
  have hsplits : (readDigits (c :: rest)).taken ++ (readDigits (c :: rest)).rest = c :: rest := splits_readDigits _
  obtain ⟨letter,later,heq,hletter⟩ | htext := radix_or (c :: rest)
  · rw [heq,readDigits_of_radix hletter] at hclosed hsuffix hsplits
    rw [heq,← hsplits]
    refine .radix hletter ⟨?_,List.all_takeWhile⟩ hsuffix
    simpa using hclosed
  · rw [readDigits_of_not_radix htext] at hsuffix hsplits
    rw [← hsplits]
    change NumberText .reader ((_ ++ (readExponent _).taken) ++ (readDecimal (c :: rest)).rest)
    rw [List.append_assoc]
    exact .decimal (mantissa_readFraction hstart) (exponent_readExponent _) (hsuffix.imp_right (And.intro trivial))

lemma isToken_decimal {suffix : List Char} (h : Mantissa .reader mantissa) (hexponent : Exponent .reader exponent)
    (hsuffix : suffix = [] ∨ suffix = ['n']) : IsToken .number (mantissa ++ (exponent ++ suffix)) := by
  have hstops : StopsBefore continuesDigits suffix := by
    obtain rfl | rfl := hsuffix
    · simp [StopsBefore]
    · rintro d ⟨⟩
      rfl
  have hdigits := readDigits_append h hexponent (hstops.mono fun d hd => by
    simp [continuesDigits,isHexDigitOrSeparator,isHexDigit,hd]) (fun _ => hstops)
      (hstops.mono fun d hd => by simp [continuesDigits,hd])
  obtain ⟨c,rest,hmantissa,hstart,-⟩ := h.exists_cons
  refine isToken_number_iff.mpr ⟨c,rest ++ (exponent ++ suffix),by rw [hmantissa,List.cons_append],hstart _,?_⟩
  rw [hdigits]
  refine ⟨rfl,?_⟩
  obtain rfl | rfl := hsuffix <;> rfl

lemma isToken_of_numberText (h : NumberText .reader text) : IsToken .number text := by
  cases h with
  | @radix letter digits suffix hletter h hsuffix =>
    have hstops : StopsBefore isHexDigitOrSeparator suffix := by
      obtain rfl | rfl := hsuffix
      · simp [StopsBefore]
      · rintro d ⟨⟩
        rfl
    refine isToken_number_iff.mpr ⟨'0',_,rfl,rfl,?_⟩
    rw [readDigits_of_radix hletter,ofWhile_append h.2 hstops]
    refine ⟨by simpa using h.1,?_⟩
    obtain rfl | rfl := hsuffix <;> rfl
  | bigInteger h => exact isToken_decimal (.whole h) .none (.inr rfl)
  | decimal h hexponent hsuffix => exact isToken_decimal h hexponent (hsuffix.imp_right And.right)

/-- A separator ends an exponent, and no number goes on with it. -/
lemma plainExponents_of_isToken (h : NumberText .language text) (htoken : IsToken .number text) :
    NumberText .plainExponents text := by
  cases h with
  | radix hletter h hsuffix => exact .radix hletter h hsuffix
  | bigInteger h => exact .bigInteger h
  | @decimal mantissa exponent suffix h hexponent hsuffix =>
    have hplain : Mantissa .plainExponents mantissa := h.mono (fun _ => id) fun _ => id
    cases hexponent with
    | none => exact .decimal hplain .none hsuffix
    | @some letter sign digits hletter hsign hdigits =>
      refine .decimal hplain (.some hletter hsign ⟨hdigits,fun hmem => ?_⟩) hsuffix
      obtain ⟨first,later,rfl,hne,hall⟩ := hdigits.exists_of_mem rfl hmem
      have hwithin := NumberRules.plainExponents_within_reader
      have hstops {test : Char → Bool} (htest : test '_' = false) : StopsBefore test ('_' :: (later ++ suffix)) := by
        rintro d ⟨⟩
        exact htest
      have hread := readDigits_append (hplain.mono (fun _ => hwithin.digits) fun _ => hwithin.fraction)
        (.some hletter hsign ⟨hne,hall⟩) (hstops rfl) (fun hnil => absurd hnil (List.cons_ne_nil _ _)) (hstops rfl)
      obtain ⟨c,rest,-,-,-,hend⟩ := isToken_number_iff.mp htoken
      simp only [List.append_assoc,List.cons_append] at hread hend
      rw [hread] at hend
      cases hend

/-- The texts that are read as one number are those of the reader's rules. Literals of the language are among them
exactly if they have no separator in an exponent. -/
theorem isToken_number_iff_numberText (text : List Char) :
    (IsToken .number text ↔ NumberText .reader text) ∧
      (IsToken .number text ∧ NumberText .language text ↔ NumberText .plainExponents text) := by
  refine ⟨⟨numberText_of_isToken,isToken_of_numberText⟩,?_,fun h => ⟨?_,?_⟩⟩
  · exact fun h => plainExponents_of_isToken h.2 h.1
  · exact isToken_of_numberText (h.mono NumberRules.plainExponents_within_reader)
  · exact h.mono NumberRules.plainExponents_within_language

/-- A literal of the language with a separator in its exponent. -/
theorem separated_exponent_refused :
    NumberText .language "1e1_0".toList ∧ ¬IsToken .number "1e1_0".toList := by
  have hmantissa : NumberRules.language.digits ['1'] := DigitRun.digit rfl
  have hexponent : NumberRules.language.exponent ['1','_','0'] := DigitRun.separated rfl (.digit rfl)
  refine ⟨?_,by decide +kernel⟩
  exact .decimal (.whole hmantissa) (.some (.inl rfl) List.mem_cons_self hexponent) (.inl rfl)

end QmlCodeModel
