import Mathlib.Data.List.Find
import QmlCodeModel.Proofs.Token.Piece

/-! A token is read the same when only its own text is left, and a gap behind it: what stood behind it in
the text that it comes from does not matter, and neither does what stands behind the gap. -/
namespace QmlCodeModel

/-- A text that does not start with a character of a class. -/
def StopsBefore (test : Char → Bool) (tail : List Char) : Prop := ∀ d ∈ tail.head?, test d = false

/-- A text that starts with a blank or the end of a line, if it is not empty. -/
def Parted (tail : List Char) : Prop := ∀ d ∈ tail.head?, d = ' ' ∨ d = '\n'

variable {text tail : List Char}

lemma Parted.stopsBefore (h : Parted tail) {test : Char → Bool} (hblank : test ' ' = false)
    (hline : test '\n' = false) : StopsBefore test tail := by
  intro d hd
  obtain rfl | rfl := h d hd
  · exact hblank
  · exact hline

lemma StopsBefore.mono {test weak : Char → Bool} (h : StopsBefore test tail)
    (hweak : ∀ d, weak d → test d) : StopsBefore weak tail := by
  intro d hd
  rw [← Bool.not_eq_true]
  exact fun hw => Bool.false_ne_true ((h d hd).symm.trans (hweak d hw))

/-- The first character is one of the part taken, or the first one behind it. -/
lemma StopsBefore.append {test : Char → Bool} {taken : List Char} (htaken : StopsBefore test taken)
    (htail : StopsBefore test tail) : StopsBefore test (taken ++ tail) := by
  cases taken with
  | nil => exact htail
  | cons d taken => exact htaken

lemma StopsBefore.of_append {test : Char → Bool} {taken : List Char} (h : StopsBefore test (taken ++ tail)) :
    StopsBefore test taken := by
  cases taken with
  | nil => simp [StopsBefore]
  | cons d taken => exact h

namespace Cut

lemma taken_prepend_append (c : Char) (cut : Cut) : (cut.prepend [c]).taken ++ tail = c :: (cut.taken ++ tail) :=
  rfl

lemma ofWhile_again (text : List Char) {test : Char → Bool} (htail : StopsBefore test tail) :
    ofWhile test ((ofWhile test text).taken ++ tail) = ⟨(ofWhile test text).taken,tail,true⟩ :=
  ofWhile_append List.all_takeWhile htail

end Cut

/-! Literals with an end of their own. -/

lemma readString_cons {quote c : Char} (hc : c ≠ '\\') (rest : List Char) :
    readString quote (c :: rest) = if isLineTerminator c then ⟨[],c :: rest,false⟩
      else if c == quote then ⟨[c],rest,true⟩ else (readString quote rest).prepend [c] := by
  rw [readString]
  · exact fun _ _ hback _ => hc hback
  · exact fun hback _ => hc hback
  · exact fun _ _ hback _ => hc hback

lemma readString_again {quote : Char} (hquote : quote ≠ '\\') (h : (readString quote text).closed) :
    readString quote ((readString quote text).taken ++ tail) = ⟨(readString quote text).taken,tail,true⟩ := by
  fun_induction readString quote text with
  | case1 => cases h
  | case2 c rest ih => simp [Cut.prepend,readString,ih h]
  | case3 => cases h
  | case4 c rest hreturn hend ih =>
    have hc : c ≠ '\r' := by
      rintro rfl
      cases rest with
      | nil => exact hend rfl rfl
      | cons d rest => exact hreturn d rest rfl rfl
    simp [Cut.prepend,readString,ih h,hc]
  | case5 => cases h
  | case6 c rest _ _ _ hline hc =>
    obtain rfl : c = quote := by simpa using hc
    simp [readString_cons hquote,hline]
  | case7 c rest _ _ hescape hline hc ih =>
    have hback : c ≠ '\\' := by
      rintro rfl
      cases rest with
      | nil => cases h
      | cons d rest => exact hescape d rest rfl rfl
    simp [Cut.prepend,readString_cons hback,hline,hc,ih h]

/-- Whether a position is outside every substitution. -/
def TemplatePosition.outside (pos : TemplatePosition) : Bool := pos.quote.isNone && pos.depth == 0

lemma readTemplate_cons {pos : TemplatePosition} {c : Char} (hc : c ≠ '\\') (rest : List Char) :
    readTemplate pos (c :: rest) =
      if pos.outside && c == '$' && rest.head? == some '\x7b' then
        (readTemplate { depth := 1 } rest.tail).prepend [c,'\x7b']
      else if pos.outside && c == '\x60' then ⟨[c],rest,true⟩
      else (readTemplate (pos.next c) rest).prepend [c] := by
  cases rest with
  | nil => simp [readTemplate,TemplatePosition.outside,Cut.prepend]
  | cons d rest =>
    rw [readTemplate]
    · by_cases hd : d = '\x7b'
      · simp [TemplatePosition.outside,hd]
      · simp [TemplatePosition.outside,hd]
    · exact hc

lemma taken_readTemplate_ne_nil {pos : TemplatePosition} (h : (readTemplate pos text).closed) :
    (readTemplate pos text).taken ≠ [] := by
  fun_cases readTemplate pos text
  case case1 => exact absurd h Bool.false_ne_true
  all_goals exact List.cons_ne_nil _ _

/-- What is taken starts with the first character. -/
lemma head?_readTemplate {pos : TemplatePosition} {d : Char} {rest : List Char}
    (h : (readTemplate pos (d :: rest)).closed) : (readTemplate pos (d :: rest)).taken.head? = some d := by
  have hsplit : (readTemplate pos (d :: rest)).taken ++ _ = d :: rest := splits_readTemplate _ _
  obtain ⟨e,taken,htaken⟩ := List.exists_cons_of_ne_nil (taken_readTemplate_ne_nil h)
  rw [htaken,List.cons_append,List.cons.injEq] at hsplit
  rw [htaken,hsplit.1]
  rfl

lemma readTemplate_again {pos : TemplatePosition} (h : (readTemplate pos text).closed) :
    readTemplate pos ((readTemplate pos text).taken ++ tail) = ⟨(readTemplate pos text).taken,tail,true⟩ := by
  fun_induction readTemplate pos text with
  | case1 => cases h
  | case2 pos c rest ih => simp [Cut.prepend,readTemplate,ih h]
  | case3 pos c d rest hc hopen ih =>
    simp only [Bool.and_eq_true,beq_iff_eq] at hopen
    obtain ⟨⟨hout,rfl⟩,rfl⟩ := hopen
    simp [Cut.prepend,readTemplate_cons hc,TemplatePosition.outside,hout,ih h]
  | case4 pos c d rest hc hopen hclose =>
    simp only [Bool.and_eq_true,beq_iff_eq] at hclose
    obtain ⟨hout,rfl⟩ := hclose
    simp [readTemplate_cons hc,TemplatePosition.outside,hout]
  | case5 pos c d rest hc hopen hclose ih =>
    have hnext : ((readTemplate (pos.next c) (d :: rest)).taken ++ tail).head? = some d := by
      rw [List.head?_append,head?_readTemplate h]
      rfl
    have hopen' : ¬(pos.outside && c == '$' && some d == some '\x7b') := by
      simpa [TemplatePosition.outside] using hopen
    have hclose' : ¬(pos.outside && c == '\x60') := hclose
    rw [Cut.taken_prepend_append,readTemplate_cons hc,hnext,if_neg hopen',if_neg hclose',ih h]
    rfl
  | case6 pos c hclose =>
    simp only [Bool.and_eq_true,beq_iff_eq] at hclose
    obtain ⟨hout,rfl⟩ := hclose
    simp [readTemplate_cons,TemplatePosition.outside,hout]
  | case7 => cases h

lemma readRegExp_cons {inClass : Bool} {c : Char} (hc : c ≠ '\\') (rest : List Char) :
    readRegExp inClass (c :: rest) = if isLineTerminator c then ⟨[],c :: rest,false⟩
      else if c == '/' && !inClass then (Cut.ofWhile isNamePart rest).prepend [c]
      else (readRegExp (if c == '[' then true else if c == ']' then false else inClass) rest).prepend [c] := by
  rw [readRegExp]
  exact fun _ _ hback _ => hc hback

/-- The flags of a regular expression end where no character of a name follows. -/
lemma readRegExp_again {inClass : Bool} (htail : StopsBefore isNamePart tail)
    (h : (readRegExp inClass text).closed) :
    readRegExp inClass ((readRegExp inClass text).taken ++ tail) =
      ⟨(readRegExp inClass text).taken,tail,true⟩ := by
  fun_induction readRegExp inClass text with
  | case1 => cases h
  | case2 inClass c rest ih => simp [Cut.prepend,readRegExp,ih h]
  | case3 => cases h
  | case4 inClass c rest hescape hline hclose =>
    simp only [Bool.and_eq_true,beq_iff_eq] at hclose
    obtain ⟨rfl,hclass⟩ := hclose
    simp [Cut.prepend,readRegExp_cons,hline,hclass,Cut.ofWhile_again _ htail]
  | case5 inClass c rest hescape hline hclose ih =>
    have hback : c ≠ '\\' := by
      rintro rfl
      cases rest with
      | nil => cases h
      | cons d rest => exact hescape d rest rfl rfl
    rw [Cut.taken_prepend_append,readRegExp_cons hback,if_neg hline,if_neg hclose,ih h]
    rfl

/-! Numbers. -/

/-- A reader takes the same from what it took, before all that it does not take a part of. -/
def Rereads (read : List Char → Cut) (test : Char → Bool) : Prop :=
  ∀ text tail, StopsBefore test tail → read ((read text).taken ++ tail) = { read text with rest := tail }

lemma Rereads.followedBy {read next : List Char → Cut} {test nextTest : Char → Bool} (h : Rereads read test)
    (hnext : Rereads next nextTest)
    (hstart : ∀ text tail, StopsBefore nextTest tail → StopsBefore test ((next text).taken ++ tail)) :
    Rereads (fun text => (read text).followedBy next) nextTest := by
  intro text tail htail
  have hfirst := h text _ (hstart (read text).rest tail htail)
  have hsecond := hnext (read text).rest tail htail
  simp only [Cut.followedBy,Cut.prepend,List.append_assoc,hfirst,hsecond]

lemma rereads_ofWhile (test : Char → Bool) : Rereads (Cut.ofWhile test) test :=
  fun _ _ htail => Cut.ofWhile_again _ htail

/-- A dot, and what may follow it in a number. -/
def isDotOrDigit (c : Char) : Bool := c == '.' || isDigitOrSeparator c

/-- What may follow in a number whatever has been read of it, but for signs. -/
def continuesDigits (c : Char) : Bool := c == '.' || isHexDigitOrSeparator c || isRadixLetter c

lemma continuesDigits_of_isDotOrDigit {d : Char} (h : isDotOrDigit d) : continuesDigits d := by
  simp only [isDotOrDigit,isDigitOrSeparator,continuesDigits,isHexDigitOrSeparator,isHexDigit,
    Bool.or_eq_true] at *
  tauto

lemma readFraction_of_stopsBefore (htail : StopsBefore isDotOrDigit tail) : readFraction tail = ⟨[],tail,true⟩ := by
  unfold readFraction
  split
  · exact absurd (htail '.' rfl) (by decide)
  · rfl

lemma rereads_readFraction : Rereads readFraction isDotOrDigit := by
  intro text tail htail
  fun_cases readFraction text with
  | case1 rest =>
    have hdigits : StopsBefore isDigitOrSeparator tail := htail.mono fun d hd => by simp [isDotOrDigit,hd]
    rw [Cut.taken_prepend_append,readFraction,Cut.ofWhile_again _ hdigits]
    rfl
  | case2 => exact readFraction_of_stopsBefore htail

/-- The sign and the digits of an exponent. -/
lemma readSign_again {rest : List Char} (htail : StopsBefore Char.isDigit tail)
    (h : ((readSign rest).followedBy (Cut.ofWhile Char.isDigit)).taken.any Char.isDigit) :
    (readSign (((readSign rest).followedBy (Cut.ofWhile Char.isDigit)).taken ++ tail)).followedBy
      (Cut.ofWhile Char.isDigit) =
        ⟨((readSign rest).followedBy (Cut.ofWhile Char.isDigit)).taken,tail,true⟩ := by
  fun_cases readSign rest with
  | case1 c rest hsign =>
    simp [readSign,hsign,Cut.followedBy,Cut.prepend,Cut.ofWhile_again _ htail]
  | case2 c rest hsign =>
    -- without a sign the first character is a digit
    have hc : c.isDigit := by
      by_contra hc
      simp [readSign,hsign,Cut.followedBy,Cut.prepend,Cut.ofWhile,hc] at h
    have hagain := Cut.ofWhile_again (c :: rest) htail
    have htaken : (Cut.ofWhile Char.isDigit (c :: rest)).taken = c :: rest.takeWhile Char.isDigit := by
      simp [Cut.ofWhile,hc]
    rw [htaken] at hagain
    simp [readSign,hsign,Cut.followedBy,Cut.prepend,htaken] at hagain ⊢
    simp [hagain]
  | case3 => simp [readSign,Cut.followedBy,Cut.prepend,Cut.ofWhile] at h

lemma readExponent_of_stopsBefore (htail : StopsBefore continuesDigits tail) :
    readExponent tail = ⟨[],tail,true⟩ := by
  cases tail with
  | nil => rfl
  | cons d tail =>
    have hd : ¬(d == 'e' || d == 'E') := by
      intro hd
      simp only [Bool.or_eq_true,beq_iff_eq] at hd
      obtain rfl | rfl := hd <;> exact absurd (htail _ rfl) (by decide)
    simp [readExponent,hd]

lemma rereads_readExponent : Rereads readExponent continuesDigits := by
  intro text tail htail
  fun_cases readExponent text with
  | case1 c rest number hexponent =>
    have hdigits : StopsBefore Char.isDigit tail := htail.mono fun d hd => by
      simp [continuesDigits,isHexDigitOrSeparator,isHexDigit,hd]
    simp only [Bool.and_eq_true] at hexponent
    have hagain := readSign_again hdigits hexponent.2
    rw [Cut.taken_prepend_append,readExponent,hagain]
    exact if_pos (Bool.and_eq_true _ _ ▸ hexponent)
  | case2 => exact readExponent_of_stopsBefore htail
  | case3 => exact readExponent_of_stopsBefore htail

/-- A fraction starts with the dot, and an exponent with its letter. -/
lemma rereads_readDecimal : Rereads readDecimal continuesDigits := by
  have hexponent : ∀ text tail, StopsBefore continuesDigits tail →
      StopsBefore isDotOrDigit ((readExponent text).taken ++ tail) := by
    intro text tail htail
    refine StopsBefore.append ?_ (htail.mono fun d => continuesDigits_of_isDotOrDigit)
    fun_cases readExponent text with
    | case1 c rest number h =>
      intro d hd
      obtain rfl : c = d := by simpa [Cut.prepend] using hd
      simp only [Bool.and_eq_true,Bool.or_eq_true,beq_iff_eq] at h
      obtain rfl | rfl := h.1 <;> decide
    | case2 => simp [StopsBefore]
    | case3 => simp [StopsBefore]
  have hfraction : ∀ text tail, StopsBefore isDotOrDigit tail →
      StopsBefore isDigitOrSeparator ((readFraction text).taken ++ tail) := by
    intro text tail htail
    refine StopsBefore.append ?_ (htail.mono fun d hd => by simp [isDotOrDigit,hd])
    fun_cases readFraction text with
    | case1 => 
      intro d hd
      obtain rfl : '.' = d := by simpa [Cut.prepend] using hd
      decide
    | case2 => simp [StopsBefore]
  exact ((rereads_ofWhile _).followedBy rereads_readFraction hfraction).followedBy rereads_readExponent hexponent

lemma readDigits_of_radix {c : Char} {rest : List Char} (h : isRadixLetter c) :
    readDigits ('0' :: c :: rest) =
      let digits := Cut.ofWhile isHexDigitOrSeparator rest
      { digits.prepend ['0',c] with closed := !digits.taken.isEmpty } := by
  simp [readDigits,h]

lemma readDigits_of_not_radix (h : ∀ c rest, text = '0' :: c :: rest → isRadixLetter c = false) :
    readDigits text = readDecimal text := by
  unfold readDigits
  split
  · rename_i c rest
    simp [h c rest rfl]
  · rfl

/-- A text names a radix, or it does not. -/
lemma radix_or (text : List Char) : (∃ c rest, text = '0' :: c :: rest ∧ isRadixLetter c) ∨
    ∀ c rest, text = '0' :: c :: rest → isRadixLetter c = false := by
  by_cases hradix : ∃ c rest, text = '0' :: c :: rest ∧ isRadixLetter c
  · exact .inl hradix
  · refine .inr fun c rest heq => ?_
    rw [← Bool.not_eq_true]
    exact fun hc => hradix ⟨c,rest,heq,hc⟩

lemma rereads_readDigits : Rereads readDigits continuesDigits := by
  intro text tail htail
  obtain ⟨c,rest,rfl,hc⟩ | htext := radix_or text
  · have hdigits : StopsBefore isHexDigitOrSeparator tail := htail.mono fun d hd => by simp [continuesDigits,hd]
    have hagain := Cut.ofWhile_again rest hdigits
    rw [readDigits_of_radix hc]
    change readDigits ('0' :: c :: ((Cut.ofWhile isHexDigitOrSeparator rest).taken ++ tail)) = _
    rw [readDigits_of_radix hc,hagain]
    rfl
  · have hsplit : (readDecimal text).taken ++ (readDecimal text).rest = text := splits_readDecimal text
    -- the second character is one that was taken, or the first one behind them
    have hagain : ∀ c rest, (readDecimal text).taken ++ tail = '0' :: c :: rest → isRadixLetter c = false := by
      intro c rest heq
      cases htaken : (readDecimal text).taken with
      | nil =>
        rw [htaken,List.nil_append] at heq
        exact absurd (htail '0' (by rw [heq]; rfl)) (by decide)
      | cons d taken =>
        rw [htaken,List.cons_append] at heq hsplit
        obtain ⟨rfl,hlater⟩ := List.cons.inj heq
        cases taken with
        | nil =>
          rw [List.nil_append] at hlater
          have hc := htail c (by rw [hlater]; rfl)
          simp only [continuesDigits,Bool.or_eq_false_iff] at hc
          exact hc.2
        | cons e taken =>
          obtain ⟨rfl,-⟩ := List.cons.inj hlater
          exact htext e _ hsplit.symm
    rw [readDigits_of_not_radix htext,readDigits_of_not_radix hagain]
    exact rereads_readDecimal text tail htail

lemma readBigSuffix_again (text : List Char) (htail : StopsBefore (· == 'n') tail) :
    readBigSuffix ((readBigSuffix text).taken ++ tail) = ⟨(readBigSuffix text).taken,tail,true⟩ := by
  fun_cases readBigSuffix text with
  | case1 => rfl
  | case2 =>
    rw [List.nil_append,readBigSuffix]
    rintro rest rfl
    exact absurd (htail 'n' rfl) (by decide)

lemma readNameTail_of_stopsBefore (htail : StopsBefore isNameStart tail) :
    readNameTail tail = ⟨[],tail,true⟩ := by
  cases tail with
  | nil => rfl
  | cons d tail => simp [readNameTail,htail d rfl]

/-- A number without a fault is its digits and its suffix. -/
lemma taken_readNumber (h : (readNumber text).faults = []) :
    (readDigits text).closed ∧
      (readNumber text).taken = (readDigits text).taken ++ (readBigSuffix (readDigits text).rest).taken := by
  obtain ⟨hdigits,htail⟩ := List.append_eq_nil_iff.mp h
  have hclosed : (readDigits text).closed := by
    by_contra hopen
    simp [readNumber,hopen] at hdigits
  have hnone : (readNumber text).tail.taken = [] := by simpa using htail
  refine ⟨hclosed,?_⟩
  rw [NumberCut.taken,hnone,List.append_nil]
  rfl

/-- A number is its digits and its suffix where none of their characters and no name follows. -/
lemma readNumber_again (htail : Parted tail) (h : (readNumber text).faults = []) :
    readNumber ((readNumber text).taken ++ tail) =
      ⟨{ readDigits text with rest := (readBigSuffix (readDigits text).rest).taken ++ tail },
        ⟨(readBigSuffix (readDigits text).rest).taken,tail,true⟩,⟨[],tail,true⟩⟩ := by
  have hsuffix : StopsBefore continuesDigits ((readBigSuffix (readDigits text).rest).taken ++ tail) := by
    refine StopsBefore.append ?_ (htail.stopsBefore (by decide) (by decide))
    fun_cases readBigSuffix (readDigits text).rest with
    | case1 =>
      intro d hd
      obtain rfl : 'n' = d := by simpa using hd
      decide
    | case2 => simp [StopsBefore]
  have hdigits := rereads_readDigits text _ hsuffix
  have hbig := readBigSuffix_again (readDigits text).rest (htail.stopsBefore (by decide) (by decide))
  have hname := readNameTail_of_stopsBefore (htail.stopsBefore (by decide +kernel) (by decide +kernel))
  rw [(taken_readNumber h).2,List.append_assoc]
  simp only [readNumber,hdigits,hbig,hname]

/-! Punctuators. -/

/-- No punctuator goes on with what parts it from the next token. -/
lemma isPrefixOf_append_parted {p q : List Char} (hq : ' ' ∉ q ∧ '\n' ∉ q) (htail : Parted tail) :
    q.isPrefixOf (p ++ tail) = q.isPrefixOf p := by
  rw [Bool.eq_iff_iff,List.isPrefixOf_iff_prefix,List.isPrefixOf_iff_prefix]
  refine ⟨fun h => ?_,fun h => h.trans (List.prefix_append _ _)⟩
  obtain hqp | ⟨later,rfl⟩ := List.prefix_or_prefix_of_prefix h (List.prefix_append p tail)
  · exact hqp
  · cases later with
    | nil => simp
    | cons d later =>
      obtain ⟨rest,htext⟩ := h
      rw [List.append_assoc,List.append_cancel_left_eq] at htext
      exfalso
      obtain rfl | rfl := htail d (by rw [← htext]; rfl)
      · exact hq.1 (by simp)
      · exact hq.2 (by simp)

/-- The table of punctuators has each of them before those that it starts with. -/
lemma punctuatorAt_again {p : String} (hp : p ∈ punctuators) (htail : Parted tail) :
    punctuatorAt (p.toList ++ tail) = some p := by
  have hsolid : ∀ q ∈ punctuators, ' ' ∉ q.toList ∧ '\n' ∉ q.toList := by decide +kernel
  have hchain : ∀ q ∈ punctuators, "?.".toList.isPrefixOf q.toList → q = "?." := by decide +kernel
  have hfirst : ∀ q ∈ punctuators, punctuators.find? (fun r => r.toList.isPrefixOf q.toList) = some q := by
    decide +kernel
  rw [← hfirst p hp]
  refine List.find?_congr fun q hq => ?_
  rw [isPrefixOf_append_parted (hsolid q hq) htail]
  cases hprefix : q.toList.isPrefixOf p.toList with
  | false => rfl
  | true =>
    rw [Bool.true_and,punctuatorStands]
    by_cases hq' : q = "?."
    · subst hq'
      obtain rfl := hchain p hp hprefix
      have hdigit : StopsBefore Char.isDigit tail := htail.stopsBefore (by decide) (by decide)
      cases tail with
      | nil => rfl
      | cons d tail => simpa using hdigit d rfl
    · simp [hq']

/-! Whole tokens. -/

lemma readComment_eq_none {c : Char} {rest : List Char}
    (h : c = '/' → StopsBefore (fun d => d == '/' || d == '*') rest) : readComment (c :: rest) = none := by
  unfold readComment
  split
  · rename_i heq
    obtain ⟨rfl,rfl⟩ := List.cons.inj heq
    exact absurd (h rfl '/' rfl) (by decide)
  · rename_i heq
    obtain ⟨rfl,rfl⟩ := List.cons.inj heq
    exact absurd (h rfl '*' rfl) (by decide)
  · rfl

lemma stopsBefore_of_readComment {rest : List Char} (h : readComment ('/' :: rest) = none) :
    StopsBefore (fun d => d == '/' || d == '*') rest := by
  intro d hd
  cases rest with
  | nil => simp at hd
  | cons e rest =>
    obtain rfl : e = d := by simpa using hd
    rw [← Bool.not_eq_true]
    intro hmark
    simp only [Bool.or_eq_true,beq_iff_eq] at hmark
    obtain rfl | rfl := hmark
    · simp [readComment] at h
    · simp [readComment] at h

lemma readComment_ne_token (text after : List Char) (kind : TokenKind) (part : List Char)
    (faults : List (LexicalFault × Nat)) : readComment text ≠ some (.token kind part faults,after) := by
  fun_cases readComment text <;> simp

section

variable {allowed : Bool} {c : Char} {cs after : List Char} {kind : TokenKind}

/-- A literal that was closed is read as it was. -/
lemma ofCut_again {literal : TokenKind} {fault : LexicalFault} {read : List Char → Cut}
    (hagain : ∀ text, (read text).closed → read ((read text).taken ++ tail) = ⟨(read text).taken,tail,true⟩)
    (h : Lexeme.ofCut literal fault c (read (cs ++ after)) = (.token kind (c :: cs) [],after)) :
    Lexeme.ofCut literal fault c (read (cs ++ tail)) = (.token kind (c :: cs) [],tail) := by
  simp only [Lexeme.ofCut,Prod.mk.injEq,Lexeme.token.injEq,List.cons.injEq,true_and] at h
  obtain ⟨⟨rfl,htaken,hfaults⟩,-⟩ := h
  have hclosed : (read (cs ++ after)).closed := by
    by_contra hopen
    simp [hopen] at hfaults
  have hread := hagain _ hclosed
  rw [htaken] at hread
  rw [hread]
  rfl

/-- What starts no number before what stood behind it starts none before a gap. -/
lemma startsNumber_of_again (htail : Parted tail) (h : startsNumber c (cs ++ tail)) :
    startsNumber c (cs ++ after) := by
  cases cs with
  | nil =>
    have hdigit : tail.head?.any Char.isDigit = false := by
      have hstops : StopsBefore Char.isDigit tail := htail.stopsBefore (by decide) (by decide)
      cases tail with
      | nil => rfl
      | cons d tail => exact hstops d rfl
    simp only [List.nil_append,startsNumber,hdigit,Bool.and_false,Bool.or_false] at h
    simp [startsNumber,h]
  | cons d cs => exact h

/-- A number that starts with a dot has the digit behind it. -/
lemma startsNumber_again {rest : List Char} (h : startsNumber c rest)
    (hcs : (readNumber (c :: rest)).taken = c :: cs) : startsNumber c (cs ++ tail) := by
  by_cases hc : c.isDigit
  · simp [startsNumber,hc]
  simp only [startsNumber,Bool.or_eq_true,Bool.and_eq_true,beq_iff_eq,hc,Bool.false_eq_true,false_or] at h
  obtain ⟨rfl,hdigit⟩ := h
  cases rest with
  | nil => cases hdigit
  | cons d rest =>
    have hd : d.isDigit := hdigit
    have htaken : ∃ later, (readNumber ('.' :: d :: rest)).taken = '.' :: d :: later := by
      simp [NumberCut.taken,readNumber,readDigits,readDecimal,Cut.followedBy,Cut.prepend,Cut.ofWhile,readFraction,
        isDigitOrSeparator,hd]
    obtain ⟨later,hlater⟩ := htaken
    obtain rfl : d :: later = cs := (List.cons.inj (hlater.symm.trans hcs)).2
    simp [startsNumber,hd]

/-- A token without a fault is read from its own text, before what parts it from the next. -/
theorem readToken_again (h : readToken allowed c (cs ++ after) = (.token kind (c :: cs) [],after))
    (htail : Parted tail) : readToken allowed c (cs ++ tail) = (.token kind (c :: cs) [],tail) := by
  have hpart : StopsBefore isNamePart tail := htail.stopsBefore (by decide +kernel) (by decide +kernel)
  unfold readToken at h ⊢
  by_cases hname : isNameStart c
  · rw [if_pos hname] at h ⊢
    simp only [Prod.mk.injEq,Lexeme.token.injEq,List.cons.injEq,true_and] at h
    obtain ⟨⟨rfl,htaken,-⟩,-⟩ := h
    have hagain := Cut.ofWhile_again (cs ++ after) hpart
    rw [htaken] at hagain
    rw [hagain]
  rw [if_neg hname] at h ⊢
  by_cases hnumber : startsNumber c (cs ++ after)
  · rw [if_pos hnumber] at h
    simp only [Prod.mk.injEq,Lexeme.token.injEq] at h
    obtain ⟨⟨rfl,htaken,hfaults⟩,-⟩ := h
    rw [if_pos (startsNumber_again hnumber htaken)]
    have hagain := readNumber_again htail hfaults
    obtain ⟨hclosed,hparts⟩ := taken_readNumber hfaults
    rw [htaken] at hagain hparts
    rw [List.cons_append] at hagain
    simp [hagain,NumberCut.taken,NumberCut.faults,hclosed,hparts]
  rw [if_neg hnumber] at h
  rw [if_neg (fun hagain => hnumber (startsNumber_of_again htail hagain))]
  by_cases hquote : c == '"' || c == '\''
  · rw [if_pos hquote] at h ⊢
    have hc : c ≠ '\\' := by
      rintro rfl
      exact absurd hquote (by decide)
    exact ofCut_again (fun _ => readString_again hc) h
  rw [if_neg hquote] at h ⊢
  by_cases hback : c == '\x60'
  · rw [if_pos hback] at h ⊢
    exact ofCut_again (fun _ => readTemplate_again) h
  rw [if_neg hback] at h ⊢
  by_cases hslash : c == '/' && allowed
  · rw [if_pos hslash] at h ⊢
    exact ofCut_again (fun _ => readRegExp_again hpart) h
  rw [if_neg hslash] at h ⊢
  cases hpunct : punctuatorAt (c :: (cs ++ after)) with
  | none => simp [hpunct] at h
  | some punct =>
    simp only [hpunct,Prod.mk.injEq,Lexeme.token.injEq] at h
    obtain ⟨⟨rfl,htext,-⟩,-⟩ := h
    have hagain := punctuatorAt_again (List.mem_of_find?_eq_some hpunct) htail
    rw [htext,List.cons_append] at hagain
    have hdrop : (c :: (cs ++ tail)).drop punct.length = tail := by
      rw [← String.length_toList,htext,← List.cons_append,List.drop_left]
    rw [hagain]
    simp only [htext,hdrop]

/-- So is one whose first character might have started a comment. -/
theorem readLexeme_again (h : readLexeme allowed c (cs ++ after) = (.token kind (c :: cs) [],after))
    (htail : Parted tail) : readLexeme allowed c (cs ++ tail) = (.token kind (c :: cs) [],tail) := by
  unfold readLexeme at h ⊢
  by_cases hline : isLineTerminator c
  · simp [hline] at h
  rw [if_neg hline] at h ⊢
  by_cases hblank : CharClass.blank.contains c || c == '\ufeff'
  · simp [hblank] at h
  rw [if_neg hblank] at h ⊢
  have hnone : readComment (c :: (cs ++ after)) = none := by
    cases hcomment : readComment (c :: (cs ++ after)) with
    | none => rfl
    | some reading =>
      rw [hcomment,Option.getD_some] at h
      subst h
      exact absurd hcomment (readComment_ne_token _ _ _ _ _)
  have hagain : readComment (c :: (cs ++ tail)) = none := by
    refine readComment_eq_none fun hc => ?_
    subst hc
    have hstops := stopsBefore_of_readComment hnone
    exact hstops.of_append.append (htail.stopsBefore (by decide) (by decide))
  rw [hnone,Option.getD_none] at h
  rw [hagain,Option.getD_none]
  exact readToken_again h htail

end

end QmlCodeModel
