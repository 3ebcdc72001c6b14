import Mathlib.Data.List.Chain
import QmlCodeModel.Grammar.Word
import QmlCodeModel.Proofs.Text.CharClass
import QmlCodeModel.Token.Stream

/-! Texts put together from pieces: each is a token behind a gap. A text whose pieces are kept apart where
they have to be is cut into the tokens that it was put together from. -/
namespace QmlCodeModel

/-- A text that is read as one name. -/
def isWord : List Char → Bool
  | [] => false
  | c :: cs => isNameStart c && cs.all isNamePart

/-- A name, or a word of the grammar. -/
structure Word where
  text : String
  isWord : isWord text.toList := by decide +kernel
  deriving DecidableEq

/-- Decimal digits. -/
structure Digits where
  text : String
  nonempty : text ≠ "" := by decide
  decimal : text.toList.all Char.isDigit := by decide
  deriving DecidableEq

/-- The punctuators of objects. -/
inductive Mark
  | dot | colon | comma | minus | opening | closing | listOpening | listClosing
  deriving DecidableEq

def Mark.char : Mark → Char
  | .dot => '.'
  | .colon => ':'
  | .comma => ','
  | .minus => '-'
  | .opening => '\x7b'
  | .closing => '\x7d'
  | .listOpening => '['
  | .listClosing => ']'

def Mark.text (m : Mark) : String := String.ofList [m.char]

/-- What a piece is besides its gap. -/
inductive Glyph
  | word (word : Word)
  | digits (digits : Digits)
  | mark (mark : Mark)
  deriving DecidableEq

namespace Glyph

def kind : Glyph → TokenKind
  | word _ => .name
  | digits _ => .number
  | mark _ => .punct

def text : Glyph → String
  | word w => w.text
  | digits d => d.text
  | mark m => m.text

/-- Whether a glyph is kept apart from the next one without a gap. -/
def touches : Glyph → Glyph → Bool
  | .word _, .mark _ => true
  | .mark .dot, .word _ => true
  | .mark .minus, .digits _ => true
  | .mark .closing, .mark .comma => true
  | _, _ => false

end Glyph

/-- What stands before a token: nothing, a blank, or a new line and its indentation. -/
inductive Gap
  | none
  | blank
  | line (indent : Nat)
  deriving DecidableEq

namespace Gap

def chars : Gap → List Char
  | none => []
  | blank => [' ']
  | line indent => '\n' :: List.replicate indent ' '

def lexemes : Gap → List Lexeme
  | none => []
  | blank => [.blank ' ']
  | line indent => .lineBreak '\n' :: List.replicate indent (.blank ' ')

def endsLine : Gap → Bool
  | line _ => true
  | _ => false

end Gap

structure Piece where
  gap : Gap
  glyph : Glyph
  deriving DecidableEq

namespace Piece

def chars (p : Piece) : List Char := p.gap.chars ++ p.glyph.text.toList

def lexemes (p : Piece) : List Lexeme :=
  p.gap.lexemes ++ [.token p.glyph.kind p.glyph.text.toList []]

def width (p : Piece) : Nat := byteWidth p.chars

/-- The place of the glyph of a piece that starts at an offset. -/
def span (p : Piece) (offset : Nat) : Span := ⟨offset + byteWidth p.gap.chars, offset + p.width⟩

/-- The token that a piece is read as where it starts at an offset. -/
def token (p : Piece) (offset : Nat) : Token :=
  ⟨p.glyph.kind, p.span offset, p.glyph.text, p.gap.endsLine⟩

@[simp] lemma token_word_isPunct (gap : Gap) (word : Word) (offset : Nat) (text : String) :
    ((Piece.mk gap (.word word)).token offset).isPunct text = false := rfl

@[simp] lemma token_digits_isPunct (gap : Gap) (digits : Digits) (offset : Nat) (text : String) :
    ((Piece.mk gap (.digits digits)).token offset).isPunct text = false := rfl

@[simp] lemma token_mark_isPunct (gap : Gap) (mark : Mark) (offset : Nat) (text : String) :
    ((Piece.mk gap (.mark mark)).token offset).isPunct text = (mark.text == text) := rfl

@[simp] lemma token_kind (p : Piece) (offset : Nat) : (p.token offset).kind = p.glyph.kind := rfl

@[simp] lemma token_text (p : Piece) (offset : Nat) : (p.token offset).text = p.glyph.text := rfl

/-- Two pieces that may stand one after the other. -/
def Meets (p q : Piece) : Prop := q.gap = .none → p.glyph.touches q.glyph

end Piece

/-- The text of pieces. -/
def written (pieces : List Piece) : List Char := pieces.flatMap Piece.chars

/-- The text of pieces without the gap before the first. -/
def bare : List Piece → List Char
  | [] => []
  | p :: pieces => p.glyph.text.toList ++ written pieces

/-- The tokens of pieces that start at an offset. -/
def tokensAt : Nat → List Piece → List Token
  | _, [] => []
  | offset, p :: pieces => p.token offset :: tokensAt (offset + p.width) pieces

/-- The pieces are cut as they were put together. -/
def Legible (pieces : List Piece) : Prop := pieces.IsChain Piece.Meets

lemma written_cons (p : Piece) (pieces : List Piece) : written (p :: pieces) = p.chars ++ written pieces :=
  List.flatMap_cons

lemma written_append (pieces later : List Piece) :
    written (pieces ++ later) = written pieces ++ written later := List.flatMap_append

lemma length_tokensAt (offset : Nat) (pieces : List Piece) :
    (tokensAt offset pieces).length = pieces.length := by
  induction pieces generalizing offset with
  | nil => rfl
  | cons p pieces ih => simp [tokensAt,ih]

/-! How a single glyph is read. -/

/-- A character that is part of a token, wherever it stands outside a comment. -/
structure Solid (c : Char) : Prop where
  line : isLineTerminator c = false
  blank : CharClass.blank.contains c = false
  mark : c ≠ '\ufeff'
  slash : c ≠ '/'

section

variable {allowed : Bool} {test : Char → Bool} {c : Char} {cs tail : List Char}

lemma Solid.readLexeme (h : Solid c) : readLexeme allowed c tail = readToken allowed c tail := by
  have hcomment : readComment (c :: tail) = none := by
    unfold readComment
    split
    · rename_i heq
      exact absurd (List.cons.inj heq).1 h.slash
    · rename_i heq
      exact absurd (List.cons.inj heq).1 h.slash
    · rfl
  simp [QmlCodeModel.readLexeme,h.line,h.blank,h.mark,hcomment]

lemma solid_of_isNameStart (h : isNameStart c) : Solid c where
  line := not_isLineTerminator_of_isNameStart h
  blank := not_blank_of_isNameStart h
  mark := by
    rintro rfl
    exact absurd h (by decide +kernel)
  slash := by
    rintro rfl
    exact absurd h (by decide +kernel)

lemma ofWhile_append (hcs : cs.all test) (htail : ∀ d ∈ tail.head?, test d = false) :
    Cut.ofWhile test (cs ++ tail) = ⟨cs,tail,true⟩ := by
  rw [List.all_eq_true] at hcs
  have hnone : tail.takeWhile test = [] ∧ tail.dropWhile test = tail := by
    cases tail with
    | nil => exact ⟨rfl,rfl⟩
    | cons d tail => simp [htail d rfl]
  unfold Cut.ofWhile
  rw [List.takeWhile_append_of_pos hcs,List.dropWhile_append_of_pos hcs,hnone.1,hnone.2,List.append_nil]

/-- A name ends where no character of a name follows. -/
lemma readLexeme_word (h : isWord (c :: cs)) (htail : ∀ d ∈ tail.head?, isNamePart d = false) :
    readLexeme allowed c (cs ++ tail) = (.token .name (c :: cs) [],tail) := by
  simp only [isWord,Bool.and_eq_true] at h
  rw [(solid_of_isNameStart h.1).readLexeme]
  simp [readToken,h.1,ofWhile_append h.2 htail]

/-- A digit starts a number and nothing else, and names no radix. -/
lemma solid_of_isDigit (h : c.isDigit) : Solid c ∧ isNameStart c = false ∧ isRadixLetter c = false := by
  simp only [Char.isDigit,Bool.and_eq_true,decide_eq_true_eq,UInt32.le_iff_toNat_le] at h
  have hlow : 48 ≤ c.toNat := h.1
  have hhigh : c.toNat ≤ 57 := h.2
  have hall : ∀ n ∈ List.range' 48 10, isLineTerminator (.ofNat n) = false ∧
      CharClass.blank.contains (.ofNat n) = false ∧ Char.ofNat n ≠ '\ufeff' ∧ Char.ofNat n ≠ '/' ∧
      isNameStart (.ofNat n) = false ∧ isRadixLetter (.ofNat n) = false := by decide +kernel
  have hc := hall c.toNat (List.mem_range'_1.mpr ⟨hlow,by omega⟩)
  rw [Char.ofNat_toNat] at hc
  obtain ⟨hline,hblank,hmark,hslash,hname,hradix⟩ := hc
  exact ⟨⟨hline,hblank,hmark,hslash⟩,hname,hradix⟩

/-- A number ends before a gap. -/
lemma readNumber_digits (h : (c :: cs).all Char.isDigit)
    (htail : ∀ d ∈ tail.head?, d = ' ' ∨ d = '\n') :
    readNumber (c :: cs ++ tail) = ⟨⟨c :: cs,tail,true⟩,⟨[],tail,true⟩,⟨[],tail,true⟩⟩ := by
  rw [List.all_eq_true] at h
  have htake : Cut.ofWhile isDigitOrSeparator (c :: cs ++ tail) = ⟨c :: cs,tail,true⟩ := by
    apply ofWhile_append
    · rw [List.all_eq_true]
      intro d hd
      simp [isDigitOrSeparator,h d hd]
    · intro d hd
      obtain rfl | rfl := htail d hd <;> decide
  have hfraction : readFraction tail = ⟨[],tail,true⟩ := by
    unfold readFraction
    split
    · simp at htail
    · rfl
  have hexponent : readExponent tail = ⟨[],tail,true⟩ := by
    unfold readExponent
    split
    · obtain rfl | rfl := htail _ rfl <;> rfl
    · rfl
  have hdecimal : readDecimal (c :: cs ++ tail) = ⟨c :: cs,tail,true⟩ := by
    unfold readDecimal
    rw [htake]
    simp [Cut.followedBy,Cut.prepend,hfraction,hexponent]
  have hdigits : readDigits (c :: cs ++ tail) = ⟨c :: cs,tail,true⟩ := by
    unfold readDigits
    split
    · rename_i d rest heq
      have hradix : isRadixLetter d = false := by
        rw [List.cons_append,List.cons.injEq] at heq
        have hd : d ∈ (cs ++ tail).head? := by rw [heq.2]; rfl
        cases cs with
        | nil => obtain rfl | rfl := htail d hd <;> decide
        | cons e cs =>
          obtain rfl : e = d := by simpa using hd
          exact (solid_of_isDigit (h e (by simp))).2.2
      rw [if_neg (by simp [hradix]),← heq]
      exact hdecimal
    · exact hdecimal
  have hsuffix : readBigSuffix tail = ⟨[],tail,true⟩ := by
    unfold readBigSuffix
    split
    · simp at htail
    · rfl
  have hname : readNameTail tail = ⟨[],tail,true⟩ := by
    unfold readNameTail
    split
    · rename_i d rest
      have hstart : isNameStart d = false := by obtain rfl | rfl := htail d rfl <;> decide +kernel
      simp [hstart]
    · rfl
  simp only [readNumber,hdigits,hsuffix,hname]

lemma readLexeme_digits (h : (c :: cs).all Char.isDigit)
    (htail : ∀ d ∈ tail.head?, d = ' ' ∨ d = '\n') :
    readLexeme allowed c (cs ++ tail) = (.token .number (c :: cs) [],tail) := by
  have hc : c.isDigit := List.all_eq_true.mp h c List.mem_cons_self
  obtain ⟨hsolid,hname,-⟩ := solid_of_isDigit hc
  have hnumber := readNumber_digits h htail
  rw [List.cons_append] at hnumber
  rw [hsolid.readLexeme]
  simp [readToken,hname,startsNumber,hc,hnumber,NumberCut.taken,NumberCut.faults]

/-- The characters that a glyph starts with. -/
def Glyph.StartsWith (g : Glyph) (c : Char) : Prop :=
  match g with
  | .word _ => isNameStart c
  | .digits _ => c.isDigit
  | .mark m => c = m.char

lemma Glyph.exists_first (g : Glyph) : ∃ c cs, g.text.toList = c :: cs ∧ g.StartsWith c := by
  cases g with
  | word w =>
    obtain ⟨text,hword⟩ := w
    cases htext : text.toList with
    | nil => simp [htext,QmlCodeModel.isWord] at hword
    | cons c cs =>
      simp only [htext,QmlCodeModel.isWord,Bool.and_eq_true] at hword
      exact ⟨c,cs,htext,hword.1⟩
  | digits d =>
    obtain ⟨text,hne,hdecimal⟩ := d
    obtain ⟨c,cs,htext⟩ := List.exists_cons_of_ne_nil (mt String.toList_eq_nil_iff.mp hne)
    rw [htext] at hdecimal
    exact ⟨c,cs,htext,List.all_eq_true.mp hdecimal c List.mem_cons_self⟩
  | mark m => exact ⟨m.char,[],String.toList_ofList,rfl⟩

/-- What may follow a glyph without a gap, if it is to be read as it is. -/
def Glyph.EndsBefore (g : Glyph) (tail : List Char) : Prop :=
  ∀ d ∈ tail.head?, match g with
    | .word _ => isNamePart d = false
    | .digits _ => d = ' ' ∨ d = '\n'
    | .mark .dot => d ≠ '.' ∧ d.isDigit = false
    | .mark .minus => d ≠ '-' ∧ d ≠ '='
    | .mark _ => True

lemma punctuatorAt_mark (m : Mark) (h : (Glyph.mark m).EndsBefore tail) :
    punctuatorAt (m.char :: tail) = some m.text := by
  cases m
  case dot =>
    cases tail with
    | nil => simp [punctuatorAt,punctuators,Mark.char,Mark.text,punctuatorStands]
    | cons d tail =>
      have hd := (h d rfl).1
      simp [punctuatorAt,punctuators,Mark.char,Mark.text,punctuatorStands,hd.symm]
  case minus =>
    cases tail with
    | nil => simp [punctuatorAt,punctuators,Mark.char,Mark.text,punctuatorStands]
    | cons d tail =>
      have hd := h d rfl
      simp [punctuatorAt,punctuators,Mark.char,Mark.text,punctuatorStands,hd.1.symm,hd.2.symm]
  all_goals simp [punctuatorAt,punctuators,Mark.char,Mark.text,punctuatorStands]

lemma readLexeme_mark (allowed : Bool) (m : Mark) (h : (Glyph.mark m).EndsBefore tail) :
    readLexeme allowed m.char tail = (.token .punct m.text.toList [],tail) := by
  have hsolid : Solid m.char := by cases m <;> exact ⟨by decide,by decide,by decide,by decide⟩
  have hname : isNameStart m.char = false := by cases m <;> decide +kernel
  have hquote : m.char ≠ '"' ∧ m.char ≠ '\'' ∧ m.char ≠ '\x60' := by cases m <;> decide
  have hnumber : startsNumber m.char tail = false := by
    cases m
    case dot =>
      cases tail with
      | nil => rfl
      | cons d tail => simpa [startsNumber,Mark.char] using (h d rfl).2
    all_goals rfl
  have hlength : m.text.length = 1 := by simp [Mark.text]
  rw [hsolid.readLexeme]
  simp [readToken,hname,hnumber,hquote,hsolid.slash,punctuatorAt_mark m h,hlength]

/-- A glyph is read as it is before what may follow it. -/
lemma lexemesFrom_glyph (allowed : Bool) (g : Glyph) (h : g.EndsBefore tail) :
    ∃ later, lexemesFrom allowed (g.text.toList ++ tail) =
      .token g.kind g.text.toList [] :: lexemesFrom later tail := by
  obtain ⟨c,cs,htext,-⟩ := g.exists_first
  have hread : readLexeme allowed c (cs ++ tail) = (.token g.kind (c :: cs) [],tail) := by
    cases g with
    | word w => exact readLexeme_word (htext ▸ w.isWord) h
    | digits d => exact readLexeme_digits (htext ▸ d.decimal) h
    | mark m =>
      have hmark : m.text.toList = [m.char] := String.toList_ofList
      obtain ⟨rfl,rfl⟩ : m.char = c ∧ [] = cs := List.cons_eq_cons.mp (hmark.symm.trans htext)
      have hread := readLexeme_mark allowed m h
      rwa [hmark] at hread
  refine ⟨(Lexeme.token g.kind (c :: cs) []).regExpAllowed allowed,?_⟩
  rw [htext,List.cons_append,lexemesFrom,hread]

lemma lexemesFrom_gap (gap : Gap) :
    lexemesFrom allowed (gap.chars ++ tail) = gap.lexemes ++ lexemesFrom allowed tail := by
  have hblank (tail : List Char) :
      lexemesFrom allowed (' ' :: tail) = .blank ' ' :: lexemesFrom allowed tail := by
    rw [lexemesFrom]
    rfl
  have hindent (indent : Nat) : lexemesFrom allowed (List.replicate indent ' ' ++ tail) =
      List.replicate indent (.blank ' ') ++ lexemesFrom allowed tail := by
    induction indent with
    | zero => rfl
    | succ indent ih => rw [List.replicate_succ,List.cons_append,hblank,ih]; rfl
  cases gap with
  | none => rfl
  | blank => exact hblank tail
  | line indent =>
    change lexemesFrom allowed ('\n' :: (List.replicate indent ' ' ++ tail)) =
      .lineBreak '\n' :: (List.replicate indent (.blank ' ') ++ lexemesFrom allowed tail)
    rw [← hindent,lexemesFrom]
    rfl

/-- A glyph may stand before a gap, and before what it touches. -/
lemma endsBefore_of_meets {p q : Piece} (h : p.Meets q) : p.glyph.EndsBefore (q.chars ++ tail) := by
  obtain ⟨gap,g⟩ := q
  have hgap {c : Char} {cs : List Char} (hc : c = ' ' ∨ c = '\n') : p.glyph.EndsBefore (c :: cs) := by
    intro d hd
    obtain rfl : c = d := by simpa using hd
    split
    · obtain rfl | rfl := hc <;> decide +kernel
    · exact hc
    · obtain rfl | rfl := hc <;> decide
    · obtain rfl | rfl := hc <;> decide
    · trivial
  cases gap with
  | blank => exact hgap (.inl rfl)
  | line indent => exact hgap (.inr rfl)
  | none =>
    obtain ⟨c,cs,htext,hfirst⟩ := g.exists_first
    have htouch : p.glyph.touches g := h rfl
    intro d hd
    obtain rfl : c = d := by simpa [Piece.chars,Gap.chars,htext] using hd
    unfold Glyph.touches at htouch
    split at htouch
    · rename_i m hp
      rw [hp]
      obtain rfl : c = m.char := hfirst
      change isNamePart m.char = false
      cases m <;> decide +kernel
    · rename_i word hp
      rw [hp]
      have hstart : isNameStart c := hfirst
      have hdot : c ≠ '.' := by
        rintro rfl
        exact absurd hstart (by decide +kernel)
      have hdigit : c.isDigit = false := by
        rw [Bool.eq_false_iff]
        intro hdigit
        simp [(solid_of_isDigit hdigit).2.1] at hstart
      exact ⟨hdot,hdigit⟩
    · rename_i digits hp
      rw [hp]
      have hdigit : c.isDigit := hfirst
      constructor
      all_goals
        rintro rfl
        exact absurd hdigit (by decide)
    · rename_i hp
      rw [hp]
      trivial
    · exact absurd htouch Bool.false_ne_true

/-- A legible text is cut into the pieces that it was put together from. -/
theorem lexemesFrom_written {pieces : List Piece} (h : Legible pieces) :
    lexemesFrom allowed (written pieces) = pieces.flatMap Piece.lexemes := by
  induction pieces generalizing allowed with
  | nil => simp [written,lexemesFrom]
  | cons p pieces ih =>
    have hends : p.glyph.EndsBefore (written pieces) := by
      cases pieces with
      | nil => simp [Glyph.EndsBefore,written]
      | cons q pieces => exact endsBefore_of_meets (List.isChain_cons_cons.mp h).1
    obtain ⟨later,hglyph⟩ := lexemesFrom_glyph allowed p.glyph hends
    rw [written_cons,Piece.chars,List.append_assoc,lexemesFrom_gap,hglyph,ih h.tail,List.flatMap_cons,
      Piece.lexemes,List.append_assoc]
    rfl

end

/-! The tokens of pieces. -/

namespace TokenStream

/-- Reading a gap moves on, and notes a new line. -/
lemma foldl_gap (gap : Gap) (s : TokenStream) : gap.lexemes.foldl add s =
    { s with position := s.position + byteWidth gap.chars, newline := s.newline || gap.endsLine } := by
  have hindent (indent : Nat) (s : TokenStream) : (List.replicate indent (Lexeme.blank ' ')).foldl add s =
      { s with position := s.position + byteWidth (List.replicate indent ' ') } := by
    induction indent generalizing s with
    | zero => rfl
    | succ indent ih =>
      rw [List.replicate_succ,List.foldl_cons,ih,List.replicate_succ,byteWidth_cons,← Nat.add_assoc]
      rfl
  cases gap with
  | none => simp [Gap.lexemes,Gap.chars,Gap.endsLine]
  | blank => simp [Gap.lexemes,Gap.chars,Gap.endsLine,add]
  | line indent =>
    simp only [Gap.lexemes,List.foldl_cons,hindent,add,Gap.chars,byteWidth_cons,Gap.endsLine,
      Bool.or_true,Nat.add_assoc]

/-- Reading pieces adds their tokens. -/
lemma foldl_pieces {pieces : List Piece} (s : TokenStream) (h : s.newline = false) :
    (pieces.flatMap Piece.lexemes).foldl add s = { s with
      tokens := s.tokens ++ (tokensAt s.position pieces).toArray
      position := s.position + byteWidth (written pieces) } := by
  induction pieces generalizing s with
  | nil => simp [tokensAt,written]
  | cons p pieces ih =>
    have hpiece : p.lexemes.foldl add s = { s with
        tokens := s.tokens.push (p.token s.position)
        position := s.position + p.width } := by
      simp [Piece.lexemes,foldl_gap,add,addToken,h,Piece.token,Piece.span,Piece.width,Piece.chars,
        Nat.add_assoc]
    rw [List.flatMap_cons,List.foldl_append,hpiece,ih]
    · simp [tokensAt,written_cons,Piece.width,Nat.add_assoc]
    · exact h

end TokenStream

/-- The tokens of a legible text are those that it was put together from, and nothing is wrong with it. -/
theorem tokenize_written {pieces : List Piece} (h : Legible pieces) :
    ∃ eof, eof.kind = .eof ∧ (tokenize (written pieces)).tokens.toList = tokensAt 0 pieces ++ [eof] ∧
      (tokenize (written pieces)).faults = #[] := by
  unfold tokenize lexemes
  rw [lexemesFrom_written h,TokenStream.foldl_pieces _ rfl]
  refine ⟨⟨.eof,⟨byteWidth (written pieces),byteWidth (written pieces)⟩,"",false⟩,rfl,?_,rfl⟩
  simp [TokenStream.finish,TokenStream.addToken]

end QmlCodeModel
