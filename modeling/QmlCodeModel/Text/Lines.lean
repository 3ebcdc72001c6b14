import QmlCodeModel.Halving
import QmlCodeModel.Text.Span

/-! Lines and columns of byte offsets. Both count from one in 32 bits, and columns count bytes. -/
namespace QmlCodeModel

/-- Where the lines of a text start, and where the text ends. -/
structure LineIndex where
  /-- The offsets after the line feeds, in order; the first line starts before them, at zero. -/
  laterStarts : List Nat
  size : Nat

/-- A line and a column, compared by line first. -/
structure LineColumn where
  line : UInt32
  column : UInt32
  deriving DecidableEq, Repr

namespace LineIndex

/-- The offsets after the line feeds of a text that stands at an offset. -/
def startsAfter (offset : Nat) : List Char → List Nat
  | [] => []
  | c :: rest =>
    let next := offset + c.utf8Size
    if c == '\n' then next :: startsAfter next rest else startsAfter next rest

def ofText (text : List Char) : LineIndex := ⟨startsAfter 0 text, byteWidth text⟩

def starts (i : LineIndex) : List Nat := 0 :: i.laterStarts

def lineCount (i : LineIndex) : Nat := i.starts.length

/-- The place of an offset. One past the end is placed at the end. -/
def positionAt (i : LineIndex) (offset : Nat) : LineColumn :=
  let offset := min offset i.size
  let line := halve (· ≤ offset) i.starts 0 i.lineCount
  ⟨.ofNat (line + 1), .ofNat (offset - i.starts[line]?.getD 0 + 1)⟩

/-- The offset of a place, if the line is there and is that long. The line feed at the end of a line
counts, and so does the place after it. -/
def offsetAt (i : LineIndex) (place : LineColumn) : Option Nat :=
  if place.line = 0 ∨ place.column = 0 then none
  else do
    let start ← i.starts[place.line.toNat - 1]?
    let stop := i.starts[place.line.toNat]?.getD i.size
    let offset := start + (place.column.toNat - 1)
    if offset ≤ stop then some offset else none

end LineIndex
end QmlCodeModel
