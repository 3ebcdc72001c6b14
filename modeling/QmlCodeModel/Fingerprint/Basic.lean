import QmlCodeModel.Fingerprint.Blake3

/-! Fingerprints: what tells contents apart without keeping them. -/
namespace QmlCodeModel

structure Fingerprint where
  bytes : Vector UInt8 32
  deriving DecidableEq, Repr

namespace Fingerprint

def ofBytes (bytes : List UInt8) : Fingerprint := ⟨Blake3.hash bytes⟩

def ofText (text : String) : Fingerprint := ofBytes text.toUTF8.toList

def hexByte (b : UInt8) : List Char :=
  [Nat.digitChar (b.toNat / 16), Nat.digitChar (b.toNat % 16)]

def toHex (f : Fingerprint) : String := String.ofList (f.bytes.toList.flatMap hexByte)

/-- The first digits, for a reader. -/
def short (f : Fingerprint) : String := String.ofList (f.toHex.toList.take 16)

def debug (f : Fingerprint) : String := "Fingerprint(" ++ f.short ++ ")"

end Fingerprint
end QmlCodeModel
