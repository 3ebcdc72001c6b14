/-! The BLAKE3 hash of a sequence of bytes, with 256 bits of output. -/
namespace QmlCodeModel.Blake3

abbrev Words (n : Nat) := Vector UInt32 n

def initialWords : Words 8 :=
  #v[0x6a09e667, 0xbb67ae85, 0x3c6ef372, 0xa54ff53a, 0x510e527f, 0x9b05688c, 0x1f83d9ab, 0x5be0cd19]

/-- Marks the first block of a chunk. -/
def chunkStart : UInt32 := 1

/-- Marks the last block of a chunk. -/
def chunkEnd : UInt32 := 2

/-- Marks a block that holds two chaining values. -/
def parentNode : UInt32 := 4

/-- Marks the block that gives the hash. -/
def rootNode : UInt32 := 8

def rotateRight (x : UInt32) (n : UInt32) : UInt32 := (x >>> n) ||| (x <<< (32 - n))

/-- Mixes two words of the message into a column or a diagonal of the state. -/
def mix (v : Words 16) (a b c d : Fin 16) (x y : UInt32) : Words 16 :=
  let v := v.set a (v[a] + v[b] + x)
  let v := v.set d (rotateRight (v[d] ^^^ v[a]) 16)
  let v := v.set c (v[c] + v[d])
  let v := v.set b (rotateRight (v[b] ^^^ v[c]) 12)
  let v := v.set a (v[a] + v[b] + y)
  let v := v.set d (rotateRight (v[d] ^^^ v[a]) 8)
  let v := v.set c (v[c] + v[d])
  v.set b (rotateRight (v[b] ^^^ v[c]) 7)

/-- Mixes the columns and then the diagonals. -/
def round (v m : Words 16) : Words 16 :=
  let v := mix v 0 4 8 12 m[0] m[1]
  let v := mix v 1 5 9 13 m[2] m[3]
  let v := mix v 2 6 10 14 m[4] m[5]
  let v := mix v 3 7 11 15 m[6] m[7]
  let v := mix v 0 5 10 15 m[8] m[9]
  let v := mix v 1 6 11 12 m[10] m[11]
  let v := mix v 2 7 8 13 m[12] m[13]
  mix v 3 4 9 14 m[14] m[15]

def permute (m : Words 16) : Words 16 :=
  #v[m[2], m[6], m[3], m[10], m[7], m[0], m[4], m[13], m[1], m[11], m[12], m[5], m[9], m[14], m[15],
    m[8]]

def rounds : Nat → Words 16 → Words 16 → Words 16
  | 0, v, _ => v
  | n + 1, v, m => rounds n (round v m) (permute m)

/-- A block with all that goes into its compression. -/
structure Input where
  chaining : Words 8
  block : Words 16
  counter : Nat
  size : Nat
  flags : UInt32

/-- The first half of the compression of a block, which is its chaining value. -/
def Input.compress (i : Input) : Words 8 :=
  let h := i.chaining
  let v : Words 16 :=
    #v[h[0], h[1], h[2], h[3], h[4], h[5], h[6], h[7],
      initialWords[0], initialWords[1], initialWords[2], initialWords[3],
      UInt32.ofNat i.counter, UInt32.ofNat (i.counter >>> 32), UInt32.ofNat i.size, i.flags]
  let v := rounds 7 v i.block
  Vector.ofFn fun k : Fin 8 => v[k.val] ^^^ v[k.val + 8]

/-- The words of a block, the lowest byte of each first, filled up with zeros. -/
def blockWords (bytes : List UInt8) : Words 16 :=
  let array := bytes.toArray
  let byte (n : Nat) : UInt32 := (array.getD n 0).toUInt32
  Vector.ofFn fun k : Fin 16 =>
    let n := 4 * k.val
    byte n ||| (byte (n + 1) <<< 8) ||| (byte (n + 2) <<< 16) ||| (byte (n + 3) <<< 24)

/-- Cuts a list into pieces of a size. An empty list is one empty piece. -/
def pieces {α : Type} (size : Nat) (xs : List α) : List (List α) :=
  if size = 0 ∨ xs.length ≤ size then [xs]
  else xs.take size :: pieces size (xs.drop size)
termination_by xs.length
decreasing_by
  simp only [List.length_drop]
  omega

/-- Compresses all blocks of a chunk but the last, and gives the input for that. -/
def chunkFrom (counter : Nat) (chaining : Words 8) (flags : UInt32) : List (List UInt8) → Input
  | [] => ⟨chaining, blockWords [], counter, 0, flags ||| chunkEnd⟩
  | [last] => ⟨chaining, blockWords last, counter, last.length, flags ||| chunkEnd⟩
  | block :: rest =>
    chunkFrom counter (Input.compress ⟨chaining, blockWords block, counter, 64, flags⟩) 0 rest

def chunkInput (counter : Nat) (bytes : List UInt8) : Input :=
  chunkFrom counter initialWords chunkStart (pieces 64 bytes)

/-- The greatest power of two below a number that is at least two. -/
def leftSize (chunks : Nat) : Nat := 1 <<< (chunks - 1).log2

theorem leftSize_lt {chunks : Nat} (h : 2 ≤ chunks) : leftSize chunks < chunks := by
  have := Nat.log2_self_le (show chunks - 1 ≠ 0 by omega)
  rw [leftSize, Nat.one_shiftLeft]
  omega

/-- The input that stands for a tree of chunks, the first of which has the given number. -/
def treeInput (counter : Nat) (chunks : List (List UInt8)) : Input :=
  if _h : chunks.length < 2 then chunkInput counter (chunks.headD [])
  else
    let left := treeInput counter (chunks.take (leftSize chunks.length))
    let right := treeInput (counter + leftSize chunks.length) (chunks.drop (leftSize chunks.length))
    ⟨initialWords, left.compress ++ right.compress, 0, 64, parentNode⟩
termination_by chunks.length
decreasing_by
  · have := leftSize_lt (show 2 ≤ chunks.length by omega)
    simp only [List.length_take]
    omega
  · have : 0 < leftSize chunks.length := by
      rw [leftSize, Nat.one_shiftLeft]
      exact Nat.two_pow_pos _
    simp only [List.length_drop]
    omega

/-- The bytes of words, the lowest byte of each first. -/
def wordBytes (words : Words 8) : Vector UInt8 32 :=
  Vector.ofFn fun k : Fin 32 =>
    (words[k.val / 4] >>> (UInt32.ofNat (8 * (k.val % 4)))).toUInt8

def hash (bytes : List UInt8) : Vector UInt8 32 :=
  let root := treeInput 0 (pieces 1024 bytes)
  wordBytes { root with flags := root.flags ||| rootNode }.compress

end QmlCodeModel.Blake3
