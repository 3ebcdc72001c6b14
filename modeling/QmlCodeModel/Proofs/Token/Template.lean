import QmlCodeModel.Proofs.Token.Normal

/-! Template literals with their substitutions. The reader counts braces and knows of strings inside a
substitution, but of no template there: what it takes is described by `FlatTemplate`, and what it should take
by `TemplateText`. -/
namespace QmlCodeModel

def isQuote (c : Char) : Bool := c == '"' || c == '\''

/-- The characters that count in a substitution. -/
def isBraceOrQuote (c : Char) : Bool := c == '\x7b' || c == '\x7d' || isQuote c

/-! What is a template literal. -/

/-- Where in a template literal something stands. -/
inductive TemplatePlace
  | outer
  /-- In a template literal that is part of a substitution. -/
  | nested
  /-- In a substitution. -/
  | code
  deriving DecidableEq

/-- The text of template literals at any nesting, without the outermost backticks. If it is tame, templates
inside a substitution have no braces and quotes but in their own substitutions and escapes, and strings hold no
escaped carriage return. -/
inductive TemplateText (tame : Bool) : TemplatePlace → List Char → Prop
  | nil (place : TemplatePlace) : TemplateText tame place []
  | char {place : TemplatePlace} {c : Char} {rest : List Char} (within : place ≠ .code)
      (ordinary : c ≠ '\x60' ∧ c ≠ '\\' ∧ ¬(c = '$' ∧ rest.head? = some '\x7b'))
      (calm : tame → place = .nested → isBraceOrQuote c = false) (later : TemplateText tame place rest) :
      TemplateText tame place (c :: rest)
  | escape {place : TemplatePlace} (c : Char) {rest : List Char} (within : place ≠ .code)
      (later : TemplateText tame place rest) : TemplateText tame place ('\\' :: c :: rest)
  | substitution {place : TemplatePlace} {code rest : List Char} (within : place ≠ .code)
      (inner : TemplateText tame .code code) (later : TemplateText tame place rest) :
      TemplateText tame place ('$' :: '\x7b' :: (code ++ '\x7d' :: rest))
  | plain {c : Char} {rest : List Char} (plain : isBraceOrQuote c = false ∧ c ≠ '\\' ∧ c ≠ '/' ∧ c ≠ '\x60')
      (later : TemplateText tame .code rest) : TemplateText tame .code (c :: rest)
  | group {inner rest : List Char} (within : TemplateText tame .code inner)
      (later : TemplateText tame .code rest) : TemplateText tame .code ('\x7b' :: (inner ++ '\x7d' :: rest))
  /-- A complete string, with its closing quote. -/
  | string {quote : Char} {inner rest : List Char} (quotes : isQuote quote)
      (complete : readString quote inner = ⟨inner, [], true⟩) (calm : tame → '\r' ∉ inner)
      (later : TemplateText tame .code rest) : TemplateText tame .code (quote :: (inner ++ rest))
  | template {inner rest : List Char} (within : TemplateText tame .nested inner)
      (later : TemplateText tame .code rest) : TemplateText tame .code ('\x60' :: (inner ++ '\x60' :: rest))

/-! What the reader takes for one. -/

/-- A string inside a substitution, with what ends it: its quote, or the end of the line. -/
inductive QuotedText (quote : Char) : List Char → Prop
  | close {c : Char} (closes : c = quote ∨ isLineTerminator c) (hc : c ≠ '\\') : QuotedText quote [c]
  | char {c : Char} {rest : List Char} (plain : c ≠ '\\' ∧ c ≠ quote ∧ isLineTerminator c = false)
      (later : QuotedText quote rest) : QuotedText quote (c :: rest)
  | escape (c : Char) {rest : List Char} (later : QuotedText quote rest) : QuotedText quote ('\\' :: c :: rest)

/-- A substitution: backticks and slashes are like any character. -/
inductive FlatCode : List Char → Prop
  | nil : FlatCode []
  | char {c : Char} {rest : List Char} (plain : isBraceOrQuote c = false ∧ c ≠ '\\') (later : FlatCode rest) :
      FlatCode (c :: rest)
  | escape (c : Char) {rest : List Char} (later : FlatCode rest) : FlatCode ('\\' :: c :: rest)
  | group {inner rest : List Char} (within : FlatCode inner) (later : FlatCode rest) :
      FlatCode ('\x7b' :: (inner ++ '\x7d' :: rest))
  | quoted {quote : Char} {inner rest : List Char} (quotes : isQuote quote) (within : QuotedText quote inner)
      (later : FlatCode rest) : FlatCode (quote :: (inner ++ rest))

/-- The inside of a literal. -/
inductive FlatTemplate : List Char → Prop
  | nil : FlatTemplate []
  | char {c : Char} {rest : List Char}
      (ordinary : c ≠ '\x60' ∧ c ≠ '\\' ∧ ¬(c = '$' ∧ rest.head? = some '\x7b')) (later : FlatTemplate rest) :
      FlatTemplate (c :: rest)
  | escape (c : Char) {rest : List Char} (later : FlatTemplate rest) : FlatTemplate ('\\' :: c :: rest)
  | substitution {code rest : List Char} (within : FlatCode code) (later : FlatTemplate rest) :
      FlatTemplate ('$' :: '\x7b' :: (code ++ '\x7d' :: rest))

variable {text tail : List Char} {depth : Nat}

lemma Cut.prepend_prepend (before after : List Char) (cut : Cut) :
    (cut.prepend after).prepend before = cut.prepend (before ++ after) := by
  simp [Cut.prepend]

/-! The reader takes each of these. -/

/-- One character inside a substitution. -/
lemma readTemplate_inside {pos : TemplatePosition} {c : Char} (hpos : pos.outside = false) (hc : c ≠ '\\') :
    readTemplate pos (c :: tail) = (readTemplate (pos.next c) tail).prepend [c] := by
  simp [readTemplate_cons hc,hpos]

lemma readTemplate_escape (pos : TemplatePosition) (c : Char) :
    readTemplate pos ('\\' :: c :: tail) = (readTemplate pos tail).prepend ['\\',c] := by
  rw [readTemplate]

lemma QuotedText.read {quote : Char} (h : QuotedText quote text) :
    readTemplate ⟨depth,some quote⟩ (text ++ tail) = (readTemplate ⟨depth,none⟩ tail).prepend text := by
  induction h with
  | close closes hc =>
    rw [List.singleton_append,readTemplate_inside rfl hc]
    simp [TemplatePosition.next,closes]
  | char plain _ ih =>
    rw [List.cons_append,readTemplate_inside rfl plain.1]
    simp [TemplatePosition.next,plain.2.1,plain.2.2,ih,Cut.prepend_prepend]
  | escape c _ ih =>
    rw [List.cons_append,List.cons_append,readTemplate_escape,ih,Cut.prepend_prepend]
    rfl

lemma outside_succ (depth : Nat) : TemplatePosition.outside ⟨depth + 1,none⟩ = false := rfl

lemma isBraceOrQuote_eq_false {c : Char} (h : isBraceOrQuote c = false) :
    c ≠ '\x7b' ∧ c ≠ '\x7d' ∧ c ≠ '"' ∧ c ≠ '\'' := by
  simpa [isBraceOrQuote,isQuote,and_assoc] using h

lemma FlatCode.read (h : FlatCode text) :
    readTemplate ⟨depth + 1,none⟩ (text ++ tail) = (readTemplate ⟨depth + 1,none⟩ tail).prepend text := by
  induction h generalizing depth tail with
  | nil => rfl
  | char plain _ ih =>
    obtain ⟨hopen,hclose,hdouble,hsingle⟩ := isBraceOrQuote_eq_false plain.1
    rw [List.cons_append,readTemplate_inside (outside_succ depth) plain.2]
    simp [TemplatePosition.next,hopen,hclose,hdouble,hsingle,ih,Cut.prepend_prepend]
  | escape c _ ih =>
    rw [List.cons_append,List.cons_append,readTemplate_escape,ih,Cut.prepend_prepend]
    rfl
  | @group inner rest _ _ ihinner ihrest =>
    rw [List.cons_append,List.append_assoc,readTemplate_inside (outside_succ depth) (by decide)]
    change (readTemplate ⟨depth + 2,none⟩ _).prepend _ = _
    rw [ihinner,List.cons_append,readTemplate_inside (outside_succ (depth + 1)) (by decide)]
    change ((((readTemplate ⟨depth + 1,none⟩ _)).prepend _).prepend _).prepend _ = _
    rw [ihrest,Cut.prepend_prepend,Cut.prepend_prepend,Cut.prepend_prepend]
    simp
  | @quoted quote inner rest quotes within _ ih =>
    have hnext : TemplatePosition.next ⟨depth + 1,none⟩ quote = ⟨depth + 1,some quote⟩ := by
      simp only [isQuote,Bool.or_eq_true,beq_iff_eq] at quotes
      obtain rfl | rfl := quotes <;> rfl
    have hquote : quote ≠ '\\' := by
      rintro rfl
      exact absurd quotes (by decide)
    rw [List.cons_append,List.append_assoc,readTemplate_inside (outside_succ depth) hquote,hnext,within.read,ih,
      Cut.prepend_prepend,Cut.prepend_prepend]
    simp

lemma FlatTemplate.read (h : FlatTemplate text) :
    readTemplate {} (text ++ '\x60' :: tail) = ⟨text ++ ['\x60'],tail,true⟩ := by
  induction h with
  | nil => simp [readTemplate_cons,TemplatePosition.outside]
  | @char c rest ordinary _ ih =>
    obtain ⟨hback,hescape,hopen⟩ := ordinary
    have hhead : ¬(c = '$' ∧ (rest ++ '\x60' :: tail).head? = some '\x7b') := by
      cases rest with
      | nil => simp
      | cons d rest => exact hopen
    rw [List.cons_append,readTemplate_cons hescape,if_neg (by simpa using fun _ => not_and.mp hhead),
      if_neg (by simpa using fun _ => hback)]
    change (readTemplate {} _).prepend [c] = _
    rw [ih]
    rfl
  | escape c _ ih =>
    rw [List.cons_append,List.cons_append,readTemplate_escape,ih]
    rfl
  | @substitution code rest within _ ih =>
    rw [List.cons_append,readTemplate_cons (by decide)]
    change (readTemplate ⟨0 + 1,none⟩ ((code ++ '\x7d' :: rest) ++ _)).prepend _ = _
    rw [List.append_assoc,within.read,List.cons_append,readTemplate_inside (outside_succ 0) (by decide)]
    change (((readTemplate {} _).prepend _).prepend _).prepend _ = _
    rw [ih,Cut.prepend_prepend,Cut.prepend_prepend]
    simp [Cut.prepend]

/-! It takes nothing else. -/

/-- What is taken from outside every string, with some braces open, up to the end of the literal. -/
def Closes : Nat → List Char → Prop
  | 0, taken => ∃ inner, taken = inner ++ ['\x60'] ∧ FlatTemplate inner
  | depth + 1, taken => ∃ code rest, taken = code ++ '\x7d' :: rest ∧ FlatCode code ∧ Closes depth rest

/-- What is taken from a position up to the end of the literal. -/
def ClosesFrom (pos : TemplatePosition) (taken : List Char) : Prop :=
  match pos.quote with
  | none => Closes pos.depth taken
  | some quote => ∃ inner rest, taken = inner ++ rest ∧ QuotedText quote inner ∧ Closes pos.depth rest

lemma closes_escape (c : Char) {taken : List Char} (h : Closes depth taken) :
    Closes depth ('\\' :: c :: taken) := by
  cases depth with
  | zero =>
    obtain ⟨inner,rfl,hinner⟩ := h
    exact ⟨'\\' :: c :: inner,rfl,.escape c hinner⟩
  | succ depth =>
    obtain ⟨code,rest,rfl,hcode,hrest⟩ := h
    exact ⟨'\\' :: c :: code,rest,rfl,.escape c hcode,hrest⟩

lemma closesFrom_escape {pos : TemplatePosition} (c : Char) {taken : List Char} (h : ClosesFrom pos taken) :
    ClosesFrom pos ('\\' :: c :: taken) := by
  obtain ⟨depth,quote⟩ := pos
  cases quote with
  | none => exact closes_escape c h
  | some quote =>
    obtain ⟨inner,rest,rfl,hinner,hrest⟩ := h
    exact ⟨'\\' :: c :: inner,rest,rfl,.escape c hinner,hrest⟩

/-- A character that is neither an escape nor opens a substitution, and does not close the literal. -/
lemma closesFrom_next {pos : TemplatePosition} {c : Char} {taken : List Char} (hc : c ≠ '\\')
    (hopen : ¬(pos.outside ∧ c = '$' ∧ taken.head? = some '\x7b')) (hclose : ¬(pos.outside ∧ c = '\x60'))
    (h : ClosesFrom (pos.next c) taken) : ClosesFrom pos (c :: taken) := by
  obtain ⟨depth,quote⟩ := pos
  cases quote with
  | some quote =>
    by_cases hend : c = quote ∨ isLineTerminator c
    · have hnext : TemplatePosition.next ⟨depth,some quote⟩ c = ⟨depth,none⟩ := by
        simp [TemplatePosition.next,hend]
      rw [hnext] at h
      exact ⟨[c],taken,rfl,.close hend hc,h⟩
    · obtain ⟨hquote,hline⟩ := not_or.mp hend
      have hnext : TemplatePosition.next ⟨depth,some quote⟩ c = ⟨depth,some quote⟩ := by
        simp [TemplatePosition.next,hend]
      rw [hnext] at h
      obtain ⟨inner,rest,rfl,hinner,hrest⟩ := h
      exact ⟨c :: inner,rest,rfl,.char ⟨hc,hquote,Bool.eq_false_iff.mpr hline⟩ hinner,hrest⟩
  | none =>
    cases depth with
    | zero =>
      obtain ⟨inner,rfl,hinner⟩ := h
      refine ⟨c :: inner,rfl,.char ⟨fun hback => hclose ⟨rfl,hback⟩,hc,fun hdollar => hopen ⟨rfl,hdollar.1,?_⟩⟩
        hinner⟩
      cases inner with
      | nil => simp at hdollar
      | cons d inner => exact hdollar.2
    | succ depth =>
      by_cases hbrace : c = '\x7b'
      · subst hbrace
        obtain ⟨inner,later,rfl,hinner,code,rest,rfl,hcode,hrest⟩ := h
        exact ⟨'\x7b' :: (inner ++ '\x7d' :: code),rest,by simp,.group hinner hcode,hrest⟩
      by_cases hbrace' : c = '\x7d'
      · subst hbrace'
        exact ⟨[],taken,rfl,.nil,h⟩
      by_cases hquote : isQuote c
      · have hnext : TemplatePosition.next ⟨depth + 1,none⟩ c = ⟨depth + 1,some c⟩ := by
          simp only [isQuote,Bool.or_eq_true,beq_iff_eq] at hquote
          obtain rfl | rfl := hquote <;> rfl
        rw [hnext] at h
        obtain ⟨inner,later,rfl,hinner,code,rest,rfl,hcode,hrest⟩ := h
        exact ⟨c :: (inner ++ code),rest,by simp,.quoted hquote hinner hcode,hrest⟩
      · have hplain : isBraceOrQuote c = false := by simp [isBraceOrQuote,hbrace,hbrace',hquote]
        have hnext : TemplatePosition.next ⟨depth + 1,none⟩ c = ⟨depth + 1,none⟩ := by
          obtain ⟨hleft,hright,hdouble,hsingle⟩ := isBraceOrQuote_eq_false hplain
          simp [TemplatePosition.next,hleft,hright,hdouble,hsingle]
        rw [hnext] at h
        obtain ⟨code,rest,rfl,hcode,hrest⟩ := h
        exact ⟨c :: code,rest,rfl,.char ⟨hplain,hc⟩ hcode,hrest⟩

lemma eq_of_outside {pos : TemplatePosition} (h : pos.quote.isNone ∧ pos.depth = 0) : pos = {} := by
  obtain ⟨depth,quote⟩ := pos
  simp only [Option.isNone_iff_eq_none] at h
  obtain ⟨rfl,rfl⟩ := h
  rfl

/-- By induction on the reading. -/
lemma closesFrom_readTemplate (pos : TemplatePosition) (text : List Char)
    (h : (readTemplate pos text).closed) : ClosesFrom pos (readTemplate pos text).taken := by
  fun_induction readTemplate pos text with
  | case1 => cases h
  | case2 pos c rest ih => exact closesFrom_escape c (ih h)
  | case3 pos c d rest _ hopen ih =>
    simp only [Bool.and_eq_true,beq_iff_eq] at hopen
    obtain ⟨⟨hout,rfl⟩,rfl⟩ := hopen
    obtain rfl := eq_of_outside hout
    obtain ⟨code,later,htaken,hcode,inner,rfl,hinner⟩ := ih h
    exact ⟨'$' :: '\x7b' :: (code ++ '\x7d' :: inner),by simp [Cut.prepend,htaken],.substitution hcode hinner⟩
  | case4 pos c d rest _ _ hclose =>
    simp only [Bool.and_eq_true,beq_iff_eq] at hclose
    obtain ⟨hout,rfl⟩ := hclose
    obtain rfl := eq_of_outside hout
    exact ⟨[],rfl,.nil⟩
  | case5 pos c d rest hc hopen hclose ih =>
    have hnext : ¬(pos.outside ∧ c = '$' ∧ (readTemplate (pos.next c) (d :: rest)).taken.head? = some '\x7b') := by
      rw [head?_readTemplate h]
      simpa [TemplatePosition.outside] using hopen
    exact closesFrom_next hc hnext (by simpa [TemplatePosition.outside] using hclose) (ih h)
  | case6 pos c hclose =>
    simp only [Bool.and_eq_true,beq_iff_eq] at hclose
    obtain ⟨hout,rfl⟩ := hclose
    obtain rfl := eq_of_outside hout
    exact ⟨[],rfl,.nil⟩
  | case7 => cases h

/-- A literal is read whole exactly if it is a flat template. -/
theorem readTemplate_eq_iff {inner : List Char} :
    readTemplate {} (inner ++ ['\x60']) = ⟨inner ++ ['\x60'],[],true⟩ ↔ FlatTemplate inner := by
  constructor
  · intro h
    obtain ⟨inner',htaken,hflat⟩ := closesFrom_readTemplate {} (inner ++ ['\x60']) (by rw [h])
    rw [h] at htaken
    exact List.append_cancel_right htaken ▸ hflat
  · exact fun h => h.read

/-! Tame literals are flat. -/

lemma FlatCode.append {later : List Char} (h : FlatCode text) (hlater : FlatCode later) :
    FlatCode (text ++ later) := by
  induction h with
  | nil => exact hlater
  | char plain _ ih => exact .char plain ih
  | escape c _ ih => exact .escape c ih
  | @group inner rest within _ _ ih =>
    rw [List.cons_append,List.append_assoc]
    exact .group within ih
  | @quoted quote inner rest quotes within _ ih =>
    rw [List.cons_append,List.append_assoc]
    exact .quoted quotes within ih

/-- A complete string is read to its end, if a backslash never takes two characters along. -/
lemma quotedText_readString {quote : Char} (text : List Char) (hquote : quote ≠ '\\')
    (h : (readString quote text).closed) (hreturn : '\r' ∉ (readString quote text).taken) : QuotedText quote (readString quote text).taken := by
  fun_induction readString quote text with
  | case1 => cases h
  | case2 => simp [Cut.prepend] at hreturn
  | case3 => cases h
  | case4 c rest _ _ ih =>
    simp only [Cut.prepend,List.cons_append,List.nil_append,List.mem_cons,not_or] at hreturn
    exact .escape c (ih h hreturn.2.2)
  | case5 => cases h
  | case6 c rest _ _ _ _ hc =>
    obtain rfl : c = quote := by simpa using hc
    exact .close (.inl rfl) hquote
  | case7 c rest _ _ hescape hline hc ih =>
    simp only [Cut.prepend,List.cons_append,List.nil_append,List.mem_cons,not_or] at hreturn
    have hback : c ≠ '\\' := by
      rintro rfl
      cases rest with
      | nil => cases h
      | cons d rest => exact hescape d rest rfl rfl
    exact .char ⟨hback,by simpa using hc,Bool.eq_false_iff.mpr hline⟩ (ih h hreturn.2)

/-- What is taken at a place, seen from the outermost literal. -/
def TemplatePlace.Flat : TemplatePlace → List Char → Prop
  | .outer => FlatTemplate
  | .nested | .code => FlatCode

/-- By induction on the text: a tame template in a substitution is like the code around it. -/
theorem flat_of_tame {place : TemplatePlace} (h : TemplateText true place text) : place.Flat text := by
  induction h with
  | nil place =>
    cases place with
    | outer => exact FlatTemplate.nil
    | nested => exact FlatCode.nil
    | code => exact FlatCode.nil
  | @char place c rest within ordinary calm _ ih =>
    cases place with
    | outer => exact FlatTemplate.char ordinary ih
    | nested => exact FlatCode.char ⟨calm rfl rfl,ordinary.2.1⟩ ih
    | code => exact absurd rfl within
  | @escape place c rest within _ ih =>
    cases place with
    | outer => exact FlatTemplate.escape c ih
    | nested => exact FlatCode.escape c ih
    | code => exact absurd rfl within
  | @substitution place code rest within _ _ ihinner ih =>
    cases place with
    | outer => exact FlatTemplate.substitution ihinner ih
    | nested => exact FlatCode.char ⟨rfl,by decide⟩ (.group ihinner ih)
    | code => exact absurd rfl within
  | plain plain _ ih => exact FlatCode.char ⟨plain.1,plain.2.1⟩ ih
  | group _ _ ihinner ih => exact FlatCode.group ihinner ih
  | @string quote inner rest quotes complete calm _ ih =>
    have hquote : quote ≠ '\\' := by
      rintro rfl
      exact absurd quotes (by decide)
    have hquoted := quotedText_readString inner hquote (by rw [complete]) (by rw [complete]; exact calm rfl)
    rw [complete] at hquoted
    exact FlatCode.quoted quotes hquoted ih
  | template _ _ ihinner ih =>
    have htick : isBraceOrQuote '\x60' = false ∧ '\x60' ≠ '\\' := by decide
    exact FlatCode.char htick (ihinner.append (.char htick ih))

/-! The token of a literal. -/

def templateLiteral (inner : List Char) : List Char := '\x60' :: (inner ++ ['\x60'])

/-- The text is read as one template literal, and nothing is wrong with it. -/
def TokenStream.IsTemplate (s : TokenStream) (text : List Char) : Prop :=
  s.tokens = #[⟨.template, ⟨0, byteWidth text⟩, String.ofList text, false⟩,
    ⟨.eof, ⟨byteWidth text, byteWidth text⟩, "", false⟩] ∧ s.faults = #[]

instance (s : TokenStream) (text : List Char) : Decidable (s.IsTemplate text) :=
  inferInstanceAs (Decidable (_ ∧ _))

lemma readLexeme_tick (text : List Char) : readLexeme true '\x60' text =
    Lexeme.ofCut .template .unterminatedTemplate '\x60' (readTemplate {} text) := by
  have hsolid : Solid '\x60' := ⟨by decide,by decide,by decide,by decide⟩
  have hname : isNameStart '\x60' = false := by decide +kernel
  have hdigit : Char.isDigit '\x60' = false := by decide
  rw [hsolid.readLexeme]
  simp [readToken,hname,startsNumber,hdigit]

/-- A literal is one token exactly if the reader takes it to its end. -/
lemma isTemplate_iff (inner : List Char) :
    (tokenize (templateLiteral inner)).IsTemplate (templateLiteral inner) ↔
      readTemplate {} (inner ++ ['\x60']) = ⟨inner ++ ['\x60'],[],true⟩ := by
  change IsToken .template ('\x60' :: (inner ++ ['\x60'])) ↔ _
  rw [isToken_cons_iff,readLexeme_tick,ofCut_eq_iff]

/-- A template literal at any nesting is read as one token exactly if it is flat, which it is if it is tame. -/
theorem tokenize_templateLiteral {tame : Bool} {inner : List Char} (h : TemplateText tame .outer inner) :
    ((tokenize (templateLiteral inner)).IsTemplate (templateLiteral inner) ↔ FlatTemplate inner) ∧
      (tame = true → (tokenize (templateLiteral inner)).IsTemplate (templateLiteral inner)) := by
  have hflat := (isTemplate_iff inner).trans readTemplate_eq_iff
  refine ⟨hflat,?_⟩
  rintro rfl
  exact hflat.mpr (flat_of_tame h)

/-- Braces, a string with a brace, and a template with a substitution of its own. -/
theorem tokenize_templateLiteral_nested :
    TemplateText true .outer "$\x7b\x7bb:'\x7d'\x7d,\x60a$\x7bc\x7d\x60\x7d".toList ∧
      (tokenize (templateLiteral "$\x7b\x7bb:'\x7d'\x7d,\x60a$\x7bc\x7d\x60\x7d".toList)).IsTemplate
        (templateLiteral "$\x7b\x7bb:'\x7d'\x7d,\x60a$\x7bc\x7d\x60\x7d".toList) := by
  have htext : TemplateText true .outer "$\x7b\x7bb:'\x7d'\x7d,\x60a$\x7bc\x7d\x60\x7d".toList := by
    have hstring : TemplateText true .code ('\'' :: (['\x7d','\''] ++ [])) :=
      .string rfl rfl (by decide) (.nil _)
    have hobject : TemplateText true .code ['b',':','\'','\x7d','\''] :=
      .plain (by decide) (.plain (by decide) hstring)
    have hcode : TemplateText true .code ['c'] := .plain (by decide) (.nil _)
    have htemplate : TemplateText true .nested ('a' :: '$' :: '\x7b' :: (['c'] ++ '\x7d' :: [])) :=
      .char (by decide) (by decide) (by decide) (.substitution (by decide) hcode (.nil _))
    exact .substitution (by decide) (.group hobject (.plain (by decide) (.template htemplate (.nil _)))) (.nil _)
  exact ⟨htext,(tokenize_templateLiteral htext).2 rfl⟩

/-- A quote in a template inside a substitution hides the end of the literal. -/
theorem not_isTemplate_of_nested_quote : TemplateText false .outer "$\x7b\x60'\x60\x7d".toList ∧
    ¬(tokenize (templateLiteral "$\x7b\x60'\x60\x7d".toList)).IsTemplate (templateLiteral "$\x7b\x60'\x60\x7d".toList) := by
  refine ⟨?_,by decide +kernel⟩
  have hquote : TemplateText false .nested ['\''] := .char (by decide) (by decide) (by decide) (.nil _)
  exact .substitution (by decide) (.template hquote (.nil _)) (.nil _)

end QmlCodeModel
