import QmlCodeModel.Token.Lexeme

/-! The tokens of a text with their places, which is what a grammar reads, and beside them the
comments and the faults. -/
namespace QmlCodeModel

/-- What is known after a part of a text. -/
structure TokenStream where
  tokens : Array Token := #[]
  comments : Array Span := #[]
  faults : Array (Span × LexicalFault) := #[]
  /-- How many bytes have been read. -/
  position : Nat := 0
  /-- A line has ended since the last token. -/
  newline : Bool := false

namespace TokenStream

def addToken (s : TokenStream) (kind : TokenKind) (text : List Char)
    (faults : List (LexicalFault × Nat)) : TokenStream :=
  let stop := s.position + byteWidth text
  { s with
    tokens := s.tokens.push ⟨kind, ⟨s.position, stop⟩, String.ofList text, s.newline⟩
    faults := s.faults ++ faults.map fun (fault, width) => (Span.mk s.position (s.position + width), fault)
    position := stop
    newline := false }

/-- A comment that holds the end of a line separates lines. -/
def addComment (s : TokenStream) (text : List Char) (closed : Bool) : TokenStream :=
  let span : Span := ⟨s.position, s.position + byteWidth text⟩
  { s with
    comments := s.comments.push span
    faults := if closed then s.faults else s.faults.push (span, .unterminatedComment)
    position := span.stop
    newline := s.newline || (closed && text.any isLineTerminator) }

def add (s : TokenStream) : Lexeme → TokenStream
  | .blank c => { s with position := s.position + c.utf8Size }
  | .lineBreak c => { s with position := s.position + c.utf8Size, newline := true }
  | .stray c =>
    let stop := s.position + c.utf8Size
    { s with
      faults := s.faults.push (⟨s.position, stop⟩, .unexpectedCharacter c)
      position := stop }
  | .comment text closed => s.addComment text closed
  | .token kind text faults => s.addToken kind text faults

/-- The end of the text is a token of its own. -/
def finish (s : TokenStream) : TokenStream := s.addToken .eof [] []

end TokenStream

/-- The tokens, comments and faults of a text. The last token is the only one of kind `eof`. -/
def tokenize (text : List Char) : TokenStream :=
  ((lexemes text).foldl TokenStream.add {}).finish

end QmlCodeModel
