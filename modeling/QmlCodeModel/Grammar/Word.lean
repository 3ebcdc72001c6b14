import QmlCodeModel.Token.Basic

/-! The words and operators that the grammar tells apart. -/
namespace QmlCodeModel

def reservedWords : List String :=
  ["break", "case", "catch", "class", "const", "continue", "debugger", "default", "delete", "do",
    "else", "enum", "export", "extends", "false", "finally", "for", "function", "if", "import",
    "in", "instanceof", "new", "null", "return", "super", "switch", "this", "throw", "true", "try",
    "typeof", "var", "void", "while", "with"]

def isReserved (word : String) : Bool := reservedWords.contains word

def assignmentOperators : List String :=
  ["=", "+=", "-=", "*=", "/=", "%=", "**=", "<<=", ">>=", ">>>=", "&=", "|=", "^=", "&&=",
    "||=", "??="]

/-- The operators between two operands that are punctuators, with what binds tighter higher. -/
def binaryPunctuators : List (String × Nat) :=
  [("??", 1), ("||", 2), ("&&", 3), ("|", 4), ("^", 5), ("&", 6), ("==", 7), ("!=", 7), ("===", 7),
    ("!==", 7), ("<", 8), (">", 8), ("<=", 8), (">=", 8), ("<<", 9), (">>", 9), (">>>", 9),
    ("+", 10), ("-", 10), ("*", 11), ("/", 11), ("%", 11), ("**", 12)]

/-- The precedence of the operators between two operands that are words. -/
def wordPrecedence : Nat := 8

def unaryOperators : List String := ["!", "~", "+", "-", "typeof", "void", "delete"]

namespace Token

/-- The precedence of an operator between two operands. The word `in` is one only where allowed. -/
def binaryPrecedence? (t : Token) (allowIn : Bool) : Option Nat :=
  match t.kind with
  | .punct => binaryPunctuators.lookup t.text
  | .name =>
    if t.text == "instanceof" || (t.text == "in" && allowIn) then some wordPrecedence else none
  | _ => none

def isAssignmentOperator (t : Token) : Bool :=
  t.kind == .punct && assignmentOperators.contains t.text

def isUnaryOperator (t : Token) : Bool :=
  (t.kind == .punct || t.kind == .name) && unaryOperators.contains t.text

/-- Stepping up or down by one. -/
def isStep (t : Token) : Bool := t.isPunct "++" || t.isPunct "--"

/-- A name that may be bound. -/
def isBindable (t : Token) : Bool := t.kind == .name && !isReserved t.text

def isOpening (t : Token) : Bool := t.isPunct "(" || t.isPunct "[" || t.isPunct "\x7b"

def isClosing (t : Token) : Bool := t.isPunct ")" || t.isPunct "]" || t.isPunct "\x7d"

end Token
end QmlCodeModel
