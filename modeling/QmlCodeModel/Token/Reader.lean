import QmlCodeModel.Text.CharClass.Alphabetic
import QmlCodeModel.Text.CharClass.Numeric
import QmlCodeModel.Token.Basic

/-! Readers of the single classes of tokens. Each cuts the text in two, so that the part it took and
the part it left make up the text (`Cut.Splits`), and says whether the literal was closed. -/
namespace QmlCodeModel

/-! The characters of names, and those that end a line. -/

/-- A name starts with a letter, a low line or a dollar sign. -/
def isNameStart (c : Char) : Bool :=
  CharClass.alphabetic.contains c || c == '_' || c == '$'

/-- A name goes on with these, digits and the two joiners. -/
def isNamePart (c : Char) : Bool :=
  CharClass.alphabetic.contains c || CharClass.numeric.contains c || c == '_' || c == '$' ||
    c == '\u200c' || c == '\u200d'

/-- Line feed, carriage return, line separator and paragraph separator. -/
def isLineTerminator (c : Char) : Bool :=
  c == '\n' || c == '\r' || c == '\u2028' || c == '\u2029'

/-- A text cut in two by a reader: what it took, and what follows. -/
structure Cut where
  taken : List Char
  rest : List Char
  /-- The reader found the end of what it reads. -/
  closed : Bool := true

namespace Cut

/-- The cut is one of this text: nothing is lost and nothing is added. -/
def Splits (cut : Cut) (text : List Char) : Prop := cut.taken ++ cut.rest = text

/-- Puts characters in front of the part taken. -/
def prepend (cs : List Char) (cut : Cut) : Cut := { cut with taken := cs ++ cut.taken }

/-- Takes the longest run of characters that pass the test. -/
def ofWhile (test : Char → Bool) (text : List Char) : Cut :=
  ⟨text.takeWhile test, text.dropWhile test, true⟩

/-- Reads on with a second reader, from where the first one stopped. -/
def followedBy (cut : Cut) (next : List Char → Cut) : Cut :=
  (next cut.rest).prepend cut.taken

theorem splits_ofWhile (test : Char → Bool) (text : List Char) : (ofWhile test text).Splits text :=
  List.takeWhile_append_dropWhile

theorem Splits.prepend {cut : Cut} {text : List Char} (h : cut.Splits text) (cs : List Char) :
    (cut.prepend cs).Splits (cs ++ text) := by
  simp only [Splits, Cut.prepend, List.append_assoc] at *
  rw [h]

theorem Splits.followedBy {cut : Cut} {text : List Char} (h : cut.Splits text)
    {next : List Char → Cut} (hnext : ∀ t, (next t).Splits t) :
    (cut.followedBy next).Splits text := by
  have := (hnext cut.rest).prepend cut.taken
  rw [show cut.taken ++ cut.rest = text from h] at this
  exact this

end Cut

/-- Reads the inside of a comment up to and including the closing star and slash. -/
def readBlockComment : List Char → Cut
  | [] => ⟨[], [], false⟩
  | '*' :: '/' :: rest => ⟨['*', '/'], rest, true⟩
  | c :: rest => (readBlockComment rest).prepend [c]

/-- Reads what follows the opening quote of a string, up to and including the closing one. A
backslash takes the next character along; if that is a carriage return, also the one after it. -/
def readString (quote : Char) : List Char → Cut
  | [] => ⟨[], [], false⟩
  | '\\' :: '\r' :: c :: rest => (readString quote rest).prepend ['\\', '\r', c]
  | ['\\', '\r'] => ⟨['\\', '\r'], [], false⟩
  | '\\' :: c :: rest => (readString quote rest).prepend ['\\', c]
  | c :: rest =>
    if isLineTerminator c then ⟨[], c :: rest, false⟩
    else if c == quote then ⟨[c], rest, true⟩
    else (readString quote rest).prepend [c]

/-- Where the reader of a template literal stands: `depth` braces are open since the start of the
outermost substitution, and inside one a quoted string may be open. -/
structure TemplatePosition where
  depth : Nat := 0
  quote : Option Char := none

/-- The position after one more character that is neither escaped nor opens a substitution. -/
def TemplatePosition.next (pos : TemplatePosition) (c : Char) : TemplatePosition :=
  match pos.quote, pos.depth with
  | some q, _ => if c == q || isLineTerminator c then { pos with quote := none } else pos
  | none, 0 => pos
  | none, depth + 1 =>
    if c == '\x7b' then { pos with depth := depth + 2 }
    else if c == '\x7d' then { pos with depth }
    else if c == '"' || c == '\'' then { pos with quote := some c }
    else pos

/-- Reads what follows the opening backtick of a template literal, up to and including the closing
one. Backticks inside a substitution close nothing. -/
def readTemplate (pos : TemplatePosition) : List Char → Cut
  | [] => ⟨[], [], false⟩
  | '\\' :: c :: rest => (readTemplate pos rest).prepend ['\\', c]
  | c :: d :: rest =>
    if pos.quote.isNone && pos.depth == 0 && c == '$' && d == '\x7b' then
      (readTemplate { depth := 1 } rest).prepend [c, d]
    else if pos.quote.isNone && pos.depth == 0 && c == '\x60' then ⟨[c], d :: rest, true⟩
    else (readTemplate (pos.next c) (d :: rest)).prepend [c]
  | [c] =>
    if pos.quote.isNone && pos.depth == 0 && c == '\x60' then ⟨[c], [], true⟩
    else ⟨[c], [], false⟩

/-- Reads what follows the opening slash of a regular expression, up to and including the closing
one and the flags. A slash inside brackets closes nothing. -/
def readRegExp (inClass : Bool) : List Char → Cut
  | [] => ⟨[], [], false⟩
  | '\\' :: c :: rest => (readRegExp inClass rest).prepend ['\\', c]
  | c :: rest =>
    if isLineTerminator c then ⟨[], c :: rest, false⟩
    else if c == '/' && !inClass then (Cut.ofWhile isNamePart rest).prepend [c]
    else (readRegExp (if c == '[' then true else if c == ']' then false else inClass) rest).prepend [c]

theorem splits_readBlockComment (text : List Char) : (readBlockComment text).Splits text := by
  fun_induction readBlockComment text with
  | case1 => rfl
  | case2 => rfl
  | case3 _ _ _ ih => exact ih.prepend _

theorem splits_readString (quote : Char) (text : List Char) :
    (readString quote text).Splits text := by
  fun_induction readString quote text with
  | case1 => rfl
  | case2 _ _ ih => exact ih.prepend _
  | case3 => rfl
  | case4 _ _ _ _ ih => exact ih.prepend _
  | case5 => rfl
  | case6 => rfl
  | case7 _ _ _ _ _ _ _ ih => exact ih.prepend _

theorem splits_readTemplate (pos : TemplatePosition) (text : List Char) :
    (readTemplate pos text).Splits text := by
  fun_induction readTemplate pos text with
  | case1 => rfl
  | case2 _ _ _ ih => exact ih.prepend _
  | case3 _ _ _ _ _ _ ih => exact ih.prepend _
  | case4 => rfl
  | case5 _ _ _ _ _ _ _ ih => exact ih.prepend _
  | case6 => rfl
  | case7 => rfl

theorem splits_readRegExp (inClass : Bool) (text : List Char) :
    (readRegExp inClass text).Splits text := by
  fun_induction readRegExp inClass text with
  | case1 => rfl
  | case2 _ _ _ ih => exact ih.prepend _
  | case3 => rfl
  | case4 => exact (Cut.splits_ofWhile _ _).prepend _
  | case5 _ _ _ _ _ _ ih => exact ih.prepend _

end QmlCodeModel
