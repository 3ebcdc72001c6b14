import Mathlib.Tactic.Common
import QmlCodeModel.Text.Span

/-! The bytes of a text in UTF-8. They tell the text, there are as many as the text is wide, and a line feed is
the only character that has the byte of one. -/
namespace QmlCodeModel

lemma toList_loop_byteArray (bytes : ByteArray) (i : Nat) (done : List UInt8) :
    ByteArray.toList.loop bytes i done = done.reverse ++ bytes.data.toList.drop i := by
  induction i, done using ByteArray.toList.loop.induct bytes with
  | case1 i done h ih =>
    have hi : i < bytes.data.toList.length := by simpa using h
    have hget : bytes.get! i = bytes.data.toList[i] := getElem!_pos bytes.data i (by simpa using h)
    rw [ByteArray.toList.loop,if_pos h,ih,List.drop_eq_getElem_cons hi,hget]
    simp
  | case2 i done h =>
    have hi : bytes.data.toList.length ≤ i := by simpa using h
    rw [ByteArray.toList.loop,if_neg h,List.drop_eq_nil_of_le hi]
    simp

lemma toList_byteArray (bytes : ByteArray) : bytes.toList = bytes.data.toList := by
  simp [ByteArray.toList,toList_loop_byteArray]

lemma toUTF8_toList_inj {text other : String} (h : text.toUTF8.toList = other.toUTF8.toList) : text = other := by
  rw [toList_byteArray,toList_byteArray] at h
  exact String.toByteArray_inj.mp (ByteArray.ext (Array.toList_inj.mp h))

lemma toUTF8_toList (text : String) : text.toUTF8.toList = text.toList.flatMap String.utf8EncodeChar := by
  conv_lhs => rw [← String.ofList_toList (s := text)]
  change (text.toList.flatMap String.utf8EncodeChar).toByteArray.toList = _
  rw [toList_byteArray,List.data_toByteArray]

lemma length_toUTF8 (text : String) : text.toUTF8.toList.length = byteWidth text.toList := by
  rw [toUTF8_toList]
  induction text.toList with
  | nil => rfl
  | cons c cs ih => rw [List.flatMap_cons,List.length_append,String.length_utf8EncodeChar,ih,byteWidth_cons]

lemma utf8ByteSize_eq_byteWidth (text : String) : text.utf8ByteSize = byteWidth text.toList := by
  rw [← length_toUTF8,toList_byteArray]
  exact Array.length_toList.symm

/-- Only a line feed is written with the byte of a line feed. -/
lemma lineFeed_notMem {c : Char} (h : c ≠ '\n') : 10 ∉ String.utf8EncodeChar c := by
  have hvalue : c.val.toNat ≠ 10 := fun heq => h (Char.ext (UInt32.toNat_inj.mp heq))
  have hbyte (n : Nat) (hn : n % 256 ≠ 10) : (10 : UInt8) ≠ UInt8.ofNat n := by
    intro heq
    have htoNat := congrArg UInt8.toNat heq
    rw [UInt8.toNat_ofNat'] at htoNat
    exact hn htoNat.symm
  unfold String.utf8EncodeChar
  dsimp only
  split_ifs with hone <;> simp only [List.mem_cons,List.not_mem_nil,or_false,not_or]
  · exact hbyte _ (by omega)
  -- Every byte of a longer character has its highest bit set.
  all_goals and_intros
  all_goals exact hbyte _ (by omega)

end QmlCodeModel
