import QmlCodeModel.Number.Reading
import QmlCodeModel.Proofs.Token.NumberText

/-! Numbers and their values. The reader of decimal texts takes plain digits with a point and an exponent, and all of
them. So a number of the language has a value exactly if it has no separator, no radix and no suffix. -/
namespace QmlCodeModel

/-- The rules of decimal texts. -/
def NumberRules.decimal : NumberRules where
  digits digits := digits ≠ [] ∧ digits.all Char.isDigit
  fraction digits := digits.all Char.isDigit
  exponent digits := digits ≠ [] ∧ digits.all Char.isDigit
  radix _ _ := False
  suffixAnywhere := False

/-- A number of plain digits: without separators, without the letter of a radix and without the suffix of big
integers. -/
structure IsPlainNumber (text : List Char) : Prop where
  separator : '_' ∉ text
  suffix : 'n' ∉ text
  radix : ∀ letter rest, text = '0' :: letter :: rest → isRadixLetter letter = false

variable {c : Char} {text whole fraction rest mantissa exponent : List Char}

lemma digitValue?_of_isDigit (h : c.isDigit) : ∃ d, digitValue? c = some d ∧ d < 10 := by
  refine ⟨c.toNat - '0'.toNat,by simp [digitValue?,h],?_⟩
  simp only [Char.isDigit,Bool.and_eq_true,decide_eq_true_eq,UInt32.le_iff_toNat_le] at h
  have hhigh : c.toNat ≤ 57 := h.2
  have hzero : '0'.toNat = 48 := rfl
  omega

lemma exists_digitsValue? (h : text.all Char.isDigit) : ∃ n, digitsValue? 10 text = some n := by
  unfold digitsValue?
  generalize 0 = value
  induction text generalizing value with
  | nil => exact ⟨value,rfl⟩
  | cons c text ih =>
    rw [List.all_cons,Bool.and_eq_true] at h
    obtain ⟨d,hd,hlt⟩ := digitValue?_of_isDigit h.1
    simpa [hd,hlt] using ih h.2 (value * 10 + d)

namespace Double

/-! The exponent. -/

lemma exists_readExponent? {sign digits : List Char} (hsign : sign ∈ [[],['+'],['-']])
    (h : NumberRules.decimal.exponent digits) : ∃ n, readExponent? (sign ++ digits) = some n := by
  obtain ⟨hne,hall⟩ := h
  obtain ⟨n,hn⟩ := exists_digitsValue? hall
  simp only [List.mem_cons,List.not_mem_nil,or_false] at hsign
  obtain rfl | rfl | rfl := hsign
  · obtain ⟨d,digits,rfl⟩ := List.exists_cons_of_ne_nil hne
    have hd : d.isDigit := List.all_eq_true.mp hall d List.mem_cons_self
    have hminus : d ≠ '-' := by rintro rfl; cases hd
    have hplus : d ≠ '+' := by rintro rfl; cases hd
    exact ⟨n,by simp [readExponent?,hminus,hplus,hall,hn]⟩
  · exact ⟨n,by simp [readExponent?,hne,hall,hn]⟩
  · exact ⟨-n,by simp [readExponent?,hne,hall,hn]⟩

lemma exists_of_readExponent? {n : Int} (h : readExponent? text = some n) :
    ∃ sign digits, text = sign ++ digits ∧ sign ∈ [[],['+'],['-']] ∧ NumberRules.decimal.exponent digits := by
  have hdigits {digits : List Char} {value : Option Int}
      (h : (if digits.isEmpty || !digits.all Char.isDigit then none else value) = some n) :
      NumberRules.decimal.exponent digits := by
    split at h
    · cases h
    · rename_i hnot
      simpa [NumberRules.decimal] using hnot
  unfold readExponent? at h
  split at h
  split at *
  case h_1 digits heq =>
    cases heq
    exact ⟨['-'],_,rfl,by simp,hdigits h⟩
  case h_2 digits heq =>
    cases heq
    exact ⟨['+'],_,rfl,by simp,hdigits h⟩
  case h_3 _ _ heq =>
    cases heq
    exact ⟨[],_,rfl,by simp,hdigits h⟩

/-- The exponent that follows the digits, zero if nothing follows them. -/
def exponentBehind? : List Char → Option Int
  | [] => some 0
  | c :: rest => if c == 'e' || c == 'E' then readExponent? rest else none

lemma isSome_exponentBehind?_iff : (exponentBehind? rest).isSome ↔ Exponent .decimal rest := by
  constructor
  · intro h
    fun_cases exponentBehind? rest with
    | case1 => exact .none
    | case2 c rest hletter =>
      rw [exponentBehind?,if_pos hletter] at h
      obtain ⟨n,hn⟩ := Option.isSome_iff_exists.mp h
      obtain ⟨sign,digits,rfl,hsign,hdigits⟩ := exists_of_readExponent? hn
      exact .some (by simpa using hletter) hsign hdigits
    | case3 c rest hletter =>
      rw [exponentBehind?,if_neg hletter] at h
      cases h
  · intro h
    cases h with
    | none => rfl
    | some hletter hsign h =>
      obtain ⟨n,hn⟩ := exists_readExponent? hsign h
      rw [exponentBehind?,if_pos (by simpa using hletter),hn]
      rfl

/-! The parts of a decimal. -/

/-- A decimal from its digits before and behind the point, and what follows. -/
def decimalOf? (whole fraction rest : List Char) : Option Decimal :=
  if whole.isEmpty && fraction.isEmpty then none
  else do
    let exponent ← exponentBehind? rest
    let digits ← digitsValue? 10 (whole ++ fraction)
    return ⟨digits, whole.length + fraction.length, exponent - fraction.length⟩

lemma isSome_decimalOf?_iff (hwhole : whole.all Char.isDigit) (hfraction : fraction.all Char.isDigit) :
    (decimalOf? whole fraction rest).isSome ↔ (whole ≠ [] ∨ fraction ≠ []) ∧ Exponent .decimal rest := by
  have hall : (whole ++ fraction).all Char.isDigit := by simp [hwhole,hfraction]
  obtain ⟨n,hn⟩ := exists_digitsValue? hall
  rw [← isSome_exponentBehind?_iff]
  unfold decimalOf?
  split
  · rename_i hempty
    simp at hempty
    simp [hempty]
  · rename_i hdigits
    have hne : whole ≠ [] ∨ fraction ≠ [] := by
      rw [← not_and_or]
      simpa using hdigits
    cases exponentBehind? rest <;> simp [hn,hne]

lemma takeWhile_digits (hwhole : whole.all Char.isDigit) (hrest : StopsBefore Char.isDigit rest) :
    (whole ++ rest).takeWhile Char.isDigit = whole ∧ (whole ++ rest).dropWhile Char.isDigit = rest := by
  have h := ofWhile_append hwhole hrest
  exact ⟨congrArg Cut.taken h,congrArg Cut.rest h⟩

lemma stopsBefore_dropWhile (text : List Char) : StopsBefore Char.isDigit (text.dropWhile Char.isDigit) :=
  fun d hd => by
    have h := List.head?_dropWhile_not Char.isDigit text
    rwa [Option.mem_def.mp hd] at h

lemma readDecimal?_point (hwhole : whole.all Char.isDigit) (hfraction : fraction.all Char.isDigit)
    (hrest : StopsBefore Char.isDigit rest) :
    readDecimal? (whole ++ '.' :: (fraction ++ rest)) = decimalOf? whole fraction rest := by
  have hdot : StopsBefore Char.isDigit ('.' :: (fraction ++ rest)) := by
    rintro d ⟨⟩
    rfl
  unfold readDecimal? decimalOf?
  simp only [takeWhile_digits hwhole hdot,takeWhile_digits hfraction hrest]
  cases rest with
  | nil => rfl
  | cons c rest =>
    simp only [exponentBehind?]
    split
    · rfl
    · split <;> rfl

lemma readDecimal?_whole (hwhole : whole.all Char.isDigit) (hrest : StopsBefore Char.isDigit rest)
    (hdot : StopsBefore (· == '.') rest) : readDecimal? (whole ++ rest) = decimalOf? whole [] rest := by
  unfold readDecimal? decimalOf?
  simp only [takeWhile_digits hwhole hrest]
  cases rest with
  | nil => rfl
  | cons c rest =>
    have hc : c ≠ '.' := by simpa using hdot c rfl
    simp [exponentBehind?,hc]
    split
    · rfl
    · split <;> rfl

/-- The decimal texts are read, and no others. -/
theorem isSome_readDecimal?_iff : (readDecimal? text).isSome ↔
    ∃ mantissa exponent, text = mantissa ++ exponent ∧ Mantissa .decimal mantissa ∧ Exponent .decimal exponent := by
  constructor
  · intro h
    obtain ⟨whole,later,rfl,hwhole,hlater⟩ : ∃ whole later, text = whole ++ later ∧ whole.all Char.isDigit ∧
        StopsBefore Char.isDigit later :=
      ⟨_,_,List.takeWhile_append_dropWhile.symm,List.all_takeWhile,stopsBefore_dropWhile text⟩
    by_cases hdot : StopsBefore (· == '.') later
    · rw [readDecimal?_whole hwhole hlater hdot,isSome_decimalOf?_iff hwhole rfl] at h
      exact ⟨whole,later,rfl,.whole ⟨by simpa using h.1,hwhole⟩,h.2⟩
    · obtain ⟨rest,rfl⟩ : ∃ rest, later = '.' :: rest := by
        cases later with
        | nil => simp [StopsBefore] at hdot
        | cons d rest => exact ⟨rest,by simpa [StopsBefore] using hdot⟩
      have hsplit := List.takeWhile_append_dropWhile (p := Char.isDigit) (l := rest)
      have hfraction : (rest.takeWhile Char.isDigit).all Char.isDigit := List.all_takeWhile
      rw [← hsplit,readDecimal?_point hwhole hfraction (stopsBefore_dropWhile rest),
        isSome_decimalOf?_iff hwhole hfraction] at h
      refine ⟨whole ++ '.' :: rest.takeWhile Char.isDigit,_,by simp,?_,h.2⟩
      obtain rfl | hne := eq_or_ne whole []
      · exact .leading ⟨by simpa using h.1,hfraction⟩
      · exact .point ⟨hne,hwhole⟩ hfraction
  · rintro ⟨mantissa,exponent,rfl,hmantissa,hexponent⟩
    have hstops : StopsBefore Char.isDigit exponent := hexponent.stopsBefore rfl rfl
    cases hmantissa with
    | whole h =>
      rw [readDecimal?_whole h.2 hstops (hexponent.stopsBefore rfl rfl),isSome_decimalOf?_iff h.2 rfl]
      exact ⟨.inl h.1,hexponent⟩
    | point h hfraction =>
      rw [List.append_assoc,List.cons_append,readDecimal?_point h.2 hfraction hstops,
        isSome_decimalOf?_iff h.2 hfraction]
      exact ⟨.inl h.1,hexponent⟩
    | leading h =>
      have hnone : ([] : List Char).all Char.isDigit := rfl
      have hread := readDecimal?_point hnone h.2 hstops
      rw [List.nil_append] at hread
      rw [List.cons_append,hread,isSome_decimalOf?_iff hnone h.2]
      exact ⟨.inr h.1,hexponent⟩

/-- What starts as a number has no sign and is none of the words. -/
lemma ofDecimalText?_eq (h : startsNumber c rest) : ofDecimalText? (c :: rest) =
    (readDecimal? (c :: rest)).map fun d => ofMagnitude false (magnitudeOfDecimal d) := by
  obtain ⟨hlow,hhigh⟩ : 46 ≤ c.toNat ∧ c.toNat ≤ 57 := by
    by_cases hdigit : c.isDigit
    · simp only [Char.isDigit,Bool.and_eq_true,decide_eq_true_eq,UInt32.le_iff_toNat_le] at hdigit
      have hzero : 48 ≤ c.toNat := hdigit.1
      exact ⟨by omega,hdigit.2⟩
    · obtain ⟨rfl,-⟩ : c = '.' ∧ rest.head?.any Char.isDigit := by simpa [startsNumber,hdigit] using h
      decide
  have hall : ∀ n ∈ List.range' 46 12, Char.ofNat n ≠ '-' ∧ Char.ofNat n ≠ '+' ∧
      (Char.ofNat n).toLower ≠ 'i' ∧ (Char.ofNat n).toLower ≠ 'n' := by decide
  have hc := hall c.toNat (List.mem_range'_1.mpr ⟨hlow,by omega⟩)
  rw [Char.ofNat_toNat] at hc
  obtain ⟨hminus,hplus,hi,hn⟩ := hc
  simp [ofDecimalText?,equalsIgnoringCase,hminus,hplus,hi,hn]

end Double

/-! Numbers of the language. -/

lemma Mantissa.forall_mem (h : Mantissa .decimal mantissa) : ∀ d ∈ mantissa, d.isDigit ∨ d = '.' := by
  have hall {digits : List Char} (h : digits.all Char.isDigit) : ∀ d ∈ digits, d.isDigit ∨ d = '.' :=
    fun d hd => .inl (List.all_eq_true.mp h d hd)
  cases h with
  | whole h => exact hall h.2
  | point h hfraction => exact List.forall_mem_append.mpr ⟨hall h.2,List.forall_mem_cons.mpr ⟨.inr rfl,hall hfraction⟩⟩
  | leading h => exact List.forall_mem_cons.mpr ⟨.inr rfl,hall h.2⟩

lemma Exponent.forall_mem (h : Exponent .decimal exponent) : ∀ d ∈ exponent, d.isDigit ∨ d ∈ ['e','E','+','-'] := by
  cases h with
  | none => simp
  | @some letter sign digits hletter hsign h =>
    simp only [List.mem_cons,List.not_mem_nil,or_false] at hsign
    refine List.forall_mem_cons.mpr ⟨.inr ?_,List.forall_mem_append.mpr ⟨fun d hd => .inr ?_,fun d hd => .inl ?_⟩⟩
    · obtain rfl | rfl := hletter <;> decide
    · obtain rfl | rfl | rfl := hsign <;> simp_all
    · exact List.all_eq_true.mp h.2 d hd

/-- A decimal text has none of the characters that make a number of another kind. -/
lemma isPlainNumber_of_decimal (h : Mantissa .decimal mantissa) (hexponent : Exponent .decimal exponent) :
    IsPlainNumber (mantissa ++ exponent) := by
  have hmem : ∀ d ∈ mantissa ++ exponent, d.isDigit ∨ d ∈ ['.','e','E','+','-'] := by
    refine List.forall_mem_append.mpr ⟨fun d hd => ?_,fun d hd => ?_⟩
    · exact (h.forall_mem d hd).imp_right fun hd => by simp [hd]
    · exact (hexponent.forall_mem d hd).imp_right (List.mem_cons_of_mem _)
  refine ⟨fun hd => absurd (hmem _ hd) (by decide),fun hd => absurd (hmem _ hd) (by decide),fun letter rest heq => ?_⟩
  have hother : (['.','e','E','+','-'].all fun d => !isRadixLetter d) = true := rfl
  obtain hdigit | hd := hmem letter (by simp [heq])
  · exact (solid_of_isDigit hdigit).2.2
  · simpa using List.all_eq_true.mp hother letter hd

lemma all_isDigit_of_notMem (h : text.all isDigitOrSeparator) (hnone : '_' ∉ text) : text.all Char.isDigit := by
  refine List.all_eq_true.mpr fun d hd => ?_
  have hd' : d.isDigit ∨ d = '_' := by simpa [isDigitOrSeparator] using List.all_eq_true.mp h d hd
  refine hd'.resolve_right ?_
  rintro rfl
  exact hnone hd

lemma Mantissa.decimal (h : Mantissa .reader mantissa) (hnone : '_' ∉ mantissa) : Mantissa .decimal mantissa := by
  have hdigits {digits : List Char} (h : NumberRules.reader.digits digits) (hnone : '_' ∉ digits) :
      NumberRules.decimal.digits digits := by
    refine ⟨?_,all_isDigit_of_notMem (NumberRules.all_of_reader_digits h) hnone⟩
    obtain ⟨c,rest,rfl,-⟩ := h
    exact List.cons_ne_nil c rest
  cases h with
  | whole h => exact .whole (hdigits h hnone)
  | point h hfraction =>
    simp only [List.mem_append,List.mem_cons,not_or] at hnone
    exact .point (hdigits h hnone.1) (all_isDigit_of_notMem hfraction hnone.2.2)
  | leading h => exact .leading (hdigits h fun hmem => hnone (List.mem_cons_of_mem _ hmem))

lemma Exponent.decimal (h : Exponent .reader exponent) : Exponent .decimal exponent := by
  cases h with
  | none => exact .none
  | some hletter hsign h => exact .some hletter hsign h

/-- A number has a value exactly if it is plain. -/
theorem isSome_ofDecimalText?_iff (h : IsToken .number text) :
    (Double.ofDecimalText? text).isSome ↔ IsPlainNumber text := by
  obtain ⟨c,rest,heq,hstart,-⟩ := isToken_number_iff.mp h
  rw [heq,Double.ofDecimalText?_eq hstart,← heq,Option.isSome_map,Double.isSome_readDecimal?_iff]
  constructor
  · rintro ⟨mantissa,exponent,rfl,hmantissa,hexponent⟩
    exact isPlainNumber_of_decimal hmantissa hexponent
  · intro hplain
    cases numberText_of_isToken h with
    | radix hletter _ _ =>
      rw [hplain.radix _ _ rfl] at hletter
      cases hletter
    | bigInteger _ => exact absurd (by simp) hplain.suffix
    | @decimal mantissa exponent suffix hmantissa hexponent hsuffix =>
      obtain rfl : suffix = [] := by
        refine hsuffix.resolve_right fun hn => hplain.suffix ?_
        simp [hn.2]
      rw [List.append_nil] at *
      have hnone : '_' ∉ mantissa := fun hmem => hplain.separator (List.mem_append_left _ hmem)
      exact ⟨mantissa,exponent,rfl,hmantissa.decimal hnone,hexponent.decimal⟩

/-! Numbers in a text. -/

/-- A number is read alike wherever it stands. -/
lemma readLexeme_number {allowed : Bool} {after : List Char}
    (h : readLexeme allowed c rest = (.token .number text [],after)) :
    readLexeme true c rest = (.token .number text [],after) := by
  have htoken : readToken allowed c rest = (.token .number text [],after) := by
    unfold readLexeme at h
    split at h
    · cases h
    split at h
    · cases h
    cases hcomment : readComment (c :: rest) with
    | none => rwa [hcomment] at h
    | some reading =>
      rw [hcomment] at h
      cases h
      exact absurd hcomment (readComment_ne_token _ _ _ _ _)
  have hstart := startsNumber_of_readToken htoken
  obtain ⟨hsolid,hname⟩ := solid_of_startsNumber hstart
  rw [hsolid.readLexeme]
  rw [readToken,if_neg (by simp [hname]),if_pos hstart] at htoken ⊢
  exact htoken

lemma isToken_of_mem_lexemesFrom {allowed : Bool} {part : List Char}
    (h : .token .number part [] ∈ lexemesFrom allowed text) : IsToken .number part := by
  fun_induction lexemesFrom allowed text with
  | case1 => cases h
  | case2 allowed c rest ih =>
    obtain hfirst | hlater := List.mem_cons.mp h
    · obtain ⟨htext,hne⟩ := isReading_readLexeme allowed c rest
      rcases hread : readLexeme allowed c rest with ⟨l,after⟩
      simp only [hread] at hfirst htext hne
      subst hfirst
      obtain ⟨d,cs,rfl⟩ := List.exists_cons_of_ne_nil hne
      obtain ⟨rfl,rfl⟩ := List.cons.inj htext
      have hend : Parted [] := by simp [Parted]
      have hagain := readLexeme_again hread hend
      rw [List.append_nil] at hagain
      exact isToken_cons_iff.mpr (readLexeme_number hagain)
    · exact ih hlater

/-- Each number of a text without faults is one by itself. -/
theorem isToken_of_mem_tokens (hfaults : (tokenize text).faults = #[]) {t : Token}
    (ht : t ∈ (tokenize text).tokens.toList) (hkind : t.kind = .number) : IsToken .number t.text.toList := by
  obtain ⟨tokens,eof,htokens,heof,-,-,hmentions⟩ := tokens_tokenize_mentions text
  rw [htokens] at ht
  obtain ht | ht := List.mem_append.mp ht
  · have hmention : t.mention ∈ mentions false (lexemes text) := by
      rw [← hmentions]
      exact List.mem_map_of_mem ht
    obtain ⟨faults,hmem⟩ := exists_of_mem_mentions hmention
    obtain rfl : faults = [] := faultless_lexemes hfaults _ hmem
    rw [show t.mention.kind = .number from hkind] at hmem
    exact isToken_of_mem_lexemesFrom hmem
  · obtain rfl := List.mem_singleton.mp ht
    rw [heof] at hkind
    cases hkind

end QmlCodeModel
