import QmlCodeModel.Text.Span

/-! Tokens of QML and JavaScript, and what can be wrong with the text of one. -/
namespace QmlCodeModel

/-- The classes of tokens. Keywords are names: the grammar tells them apart. -/
inductive TokenKind
  | name | punct | number | string | template | regExp | eof
  deriving DecidableEq, Repr, Inhabited

structure Token where
  kind : TokenKind
  span : Span
  text : String
  /-- A line ends between the token before and this one. -/
  newlineBefore : Bool
  deriving DecidableEq, Repr, Inhabited

namespace Token

def isPunct (t : Token) (text : String) : Bool := t.kind == .punct && t.text == text

def isName (t : Token) (text : String) : Bool := t.kind == .name && t.text == text

end Token

/-- A defect of the text itself, found before any grammar is applied. -/
inductive LexicalFault
  | unexpectedCharacter (c : Char)
  | unterminatedComment
  | unterminatedString
  | unterminatedTemplate
  | unterminatedRegExp
  | invalidNumber
  deriving DecidableEq, Repr

def LexicalFault.message : LexicalFault → String
  | .unexpectedCharacter c => "unexpected character '" ++ c.toString ++ "'"
  | .unterminatedComment => "unterminated comment"
  | .unterminatedString => "unterminated string literal"
  | .unterminatedTemplate => "unterminated template literal"
  | .unterminatedRegExp => "unterminated regular expression literal"
  | .invalidNumber => "invalid numeric literal"

end QmlCodeModel
