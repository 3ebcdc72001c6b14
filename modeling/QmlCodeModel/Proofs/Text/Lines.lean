import Mathlib.Data.List.DropRight
import QmlCodeModel.Proofs.Halving
import QmlCodeModel.Proofs.Text.Bytes
import QmlCodeModel.Text.Lines

/-! Lines and columns of offsets. The place of an offset counts the line feeds before it and the bytes since the last
one, and the offset is found again at its place. Every offset at the start of a later line has a second place, behind
the line feed of the line before. -/
namespace QmlCodeModel

/-- How many line feeds there are among bytes. -/
def lineFeeds (bytes : List UInt8) : Nat := bytes.count 10

/-- How many bytes come after the last line feed. -/
def sinceLineFeed (bytes : List UInt8) : Nat := (bytes.rtakeWhile (· ≠ 10)).length

/-- The bytes of a text before an offset. -/
def bytesBefore (text : String) (offset : Nat) : List UInt8 := text.toUTF8.toList.take offset

/-- The line and the column of an offset, counted from one, are numbers of 32 bits. -/
structure Numbered (text : String) (offset : Nat) : Prop where
  line : 1 + lineFeeds (bytesBefore text offset) < UInt32.size
  column : 1 + sinceLineFeed (bytesBefore text offset) < UInt32.size

lemma sinceLineFeed_concat (bytes : List UInt8) (b : UInt8) :
    sinceLineFeed (bytes ++ [b]) = if b = 10 then 0 else sinceLineFeed bytes + 1 := by
  unfold sinceLineFeed
  rw [List.rtakeWhile_concat]
  by_cases h : b = 10 <;> simp [h]

lemma lineFeeds_append (bytes more : List UInt8) : lineFeeds (bytes ++ more) = lineFeeds bytes + lineFeeds more :=
  List.count_append

/-- The line feeds and the bytes since are different bytes. -/
lemma lineFeeds_add_sinceLineFeed_le (bytes : List UInt8) : lineFeeds bytes + sinceLineFeed bytes ≤ bytes.length := by
  induction bytes using List.reverseRecOn with
  | nil => exact Nat.le_refl _
  | append_singleton bytes b ih =>
    rw [lineFeeds_append,sinceLineFeed_concat,List.length_append,List.length_singleton]
    by_cases h : b = 10
    · rw [if_pos h,h]
      have hone : lineFeeds [10] = 1 := rfl
      omega
    · have hzero : lineFeeds [b] = 0 := List.count_eq_zero.mpr (by simpa using Ne.symm h)
      rw [if_neg h]
      omega

lemma sinceLineFeed_eq_zero_iff (bytes : List UInt8) :
    sinceLineFeed bytes = 0 ↔ bytes = [] ∨ bytes.getLast? = some 10 := by
  induction bytes using List.reverseRecOn with
  | nil => exact iff_of_true rfl (.inl rfl)
  | append_singleton bytes b =>
    rw [sinceLineFeed_concat,List.getLast?_concat]
    simp

/-- Without another line feed the line goes on. -/
lemma sinceLineFeed_append (bytes : List UInt8) {more : List UInt8} (h : lineFeeds more = 0) :
    sinceLineFeed (bytes ++ more) = sinceLineFeed bytes + more.length := by
  induction more using List.reverseRecOn with
  | nil => simp
  | append_singleton more b ih =>
    rw [lineFeeds_append,Nat.add_eq_zero_iff] at h
    have hb : b ≠ 10 := fun heq => by simp [heq,lineFeeds] at h
    rw [← List.append_assoc,sinceLineFeed_concat,if_neg hb,ih h.1,List.length_append,List.length_singleton,Nat.add_assoc]

lemma sinceLineFeed_of_none {bytes : List UInt8} (h : lineFeeds bytes = 0) : sinceLineFeed bytes = bytes.length := by
  have hzero : sinceLineFeed [] = 0 := rfl
  have hsince := sinceLineFeed_append [] h
  rwa [List.nil_append,hzero,Nat.zero_add] at hsince

namespace LineIndex

/-- The offsets after the line feeds among bytes that stand at an offset. -/
def startsBehind (offset : Nat) : List UInt8 → List Nat
  | [] => []
  | b :: rest => if b = 10 then (offset + 1) :: startsBehind (offset + 1) rest else startsBehind (offset + 1) rest

lemma startsBehind_append (offset : Nat) (bytes more : List UInt8) : startsBehind offset (bytes ++ more) =
    startsBehind offset bytes ++ startsBehind (offset + bytes.length) more := by
  induction bytes generalizing offset with
  | nil => rfl
  | cons b bytes ih =>
    have hlength : offset + 1 + bytes.length = offset + (b :: bytes).length := by
      rw [List.length_cons,Nat.add_right_comm,Nat.add_assoc]
    rw [List.cons_append,startsBehind,startsBehind,ih,hlength]
    split <;> rfl

lemma startsBehind_of_notMem {offset : Nat} {bytes : List UInt8} (h : 10 ∉ bytes) : startsBehind offset bytes = [] := by
  induction bytes generalizing offset with
  | nil => rfl
  | cons b bytes ih =>
    rw [List.mem_cons,not_or] at h
    rw [startsBehind,if_neg (Ne.symm h.1),ih h.2]

/-- The characters of a text show the same line feeds as its bytes. -/
lemma startsAfter_eq (offset : Nat) (text : List Char) :
    startsAfter offset text = startsBehind offset (text.flatMap String.utf8EncodeChar) := by
  induction text generalizing offset with
  | nil => rfl
  | cons c rest ih =>
    rw [List.flatMap_cons,startsBehind_append,String.length_utf8EncodeChar,← ih,startsAfter]
    by_cases h : c = '\n'
    · subst h
      rfl
    · rw [startsBehind_of_notMem (lineFeed_notMem h),List.nil_append]
      simp [h]

lemma length_startsBehind (offset : Nat) (bytes : List UInt8) :
    (startsBehind offset bytes).length = lineFeeds bytes := by
  induction bytes generalizing offset with
  | nil => rfl
  | cons b bytes ih =>
    rw [startsBehind,lineFeeds,List.count_cons]
    by_cases h : b = 10
    · rw [if_pos h,List.length_cons,ih,if_pos (beq_iff_eq.mpr h),lineFeeds]
    · rw [if_neg h,ih,if_neg (by simpa using h),lineFeeds,Nat.add_zero]

lemma lt_of_mem_startsBehind {offset start : Nat} {bytes : List UInt8} (h : start ∈ startsBehind offset bytes) :
    offset < start ∧ start ≤ offset + bytes.length := by
  induction bytes generalizing offset with
  | nil => cases h
  | cons b bytes ih =>
    rw [startsBehind] at h
    rw [List.length_cons]
    split at h
    · obtain rfl | h := List.mem_cons.mp h
      · omega
      · have := ih h
        omega
    · have := ih h
      omega

/-- The last line starts where the bytes since the last line feed do. -/
lemma getLastD_startsBehind (offset : Nat) (bytes : List UInt8) :
    (startsBehind offset bytes).getLastD offset + sinceLineFeed bytes = offset + bytes.length := by
  induction bytes using List.reverseRecOn with
  | nil => rfl
  | append_singleton bytes b ih =>
    rw [startsBehind_append,sinceLineFeed_concat,List.length_append,List.length_singleton,startsBehind]
    split
    · rw [startsBehind,List.getLastD_concat,Nat.add_zero,Nat.add_assoc]
    · rw [startsBehind,List.append_nil]
      omega

variable {text : String} {offset : Nat}

lemma length_bytesBefore (h : offset ≤ text.utf8ByteSize) : (bytesBefore text offset).length = offset := by
  rw [utf8ByteSize_eq_byteWidth,← length_toUTF8] at h
  exact List.length_take_of_le h

/-- The lines that start up to an offset, and those that start behind it. -/
lemma starts_eq (h : offset ≤ text.utf8ByteSize) : (ofText text.toList).starts =
    0 :: startsBehind 0 (bytesBefore text offset) ++ startsBehind offset (text.toUTF8.toList.drop offset) := by
  have hparts := startsBehind_append 0 (bytesBefore text offset) (text.toUTF8.toList.drop offset)
  rw [length_bytesBefore h,Nat.zero_add,bytesBefore,List.take_append_drop] at hparts
  rw [starts,ofText,startsAfter_eq,← toUTF8_toList,hparts]
  rfl

lemma pairwise_startsBehind (offset : Nat) (bytes : List UInt8) : (startsBehind offset bytes).Pairwise (· < ·) := by
  induction bytes generalizing offset with
  | nil => exact .nil
  | cons b bytes ih =>
    rw [startsBehind]
    split
    · exact .cons (fun start hstart => (lt_of_mem_startsBehind hstart).1) (ih _)
    · exact ih _

lemma size_ofText (text : String) : (ofText text.toList).size = text.utf8ByteSize :=
  (utf8ByteSize_eq_byteWidth text).symm

lemma lineFeeds_add_sinceLineFeed_le_offset (h : offset ≤ text.utf8ByteSize) :
    lineFeeds (bytesBefore text offset) + sinceLineFeed (bytesBefore text offset) ≤ offset := by
  conv_rhs => rw [← length_bytesBefore h]
  exact lineFeeds_add_sinceLineFeed_le _

/-- Where the line of an offset starts. -/
lemma start_of_line (h : offset ≤ text.utf8ByteSize) :
    (ofText text.toList).starts[lineFeeds (bytesBefore text offset)]? =
      some (offset - sinceLineFeed (bytesBefore text offset)) := by
  have hlast := getLastD_startsBehind 0 (bytesBefore text offset)
  rw [length_bytesBefore h,Nat.zero_add,List.getLastD_eq_getLast?] at hlast
  have hindex : (startsBehind 0 (bytesBefore text offset)).length =
      (0 :: startsBehind 0 (bytesBefore text offset)).length - 1 := rfl
  rw [starts_eq h,← length_startsBehind 0,List.getElem?_append_left (Nat.lt_succ_self _),hindex,
    ← List.getLast?_eq_getElem?,List.getLast?_cons]
  exact congrArg some (Nat.eq_sub_of_add_eq hlast)

lemma le_of_mem_front (h : offset ≤ text.utf8ByteSize) :
    ∀ start ∈ 0 :: startsBehind 0 (bytesBefore text offset), start ≤ offset := by
  intro start hstart
  obtain rfl | hstart := List.mem_cons.mp hstart
  · exact Nat.zero_le _
  · have hle := (lt_of_mem_startsBehind hstart).2
    rwa [length_bytesBefore h,Nat.zero_add] at hle

/-- The lines that start up to an offset are numbered by the line feeds before it. -/
lemma start_le_iff (h : offset ≤ text.utf8ByteSize) {k start : Nat}
    (hk : (ofText text.toList).starts[k]? = some start) :
    start ≤ offset ↔ k ≤ lineFeeds (bytesBefore text offset) := by
  rw [starts_eq h] at hk
  rw [← length_startsBehind 0]
  obtain hlt | hge := Nat.lt_or_ge k (0 :: startsBehind 0 (bytesBefore text offset)).length
  · rw [List.getElem?_append_left hlt] at hk
    exact iff_of_true (le_of_mem_front h start (List.mem_of_getElem? hk)) (Nat.le_of_lt_succ hlt)
  · rw [List.getElem?_append_right hge] at hk
    have hbehind := (lt_of_mem_startsBehind (List.mem_of_getElem? hk)).1
    exact iff_of_false (Nat.not_le_of_lt hbehind) (Nat.not_le_of_lt hge)

lemma starts_eq_of_size (text : String) : (ofText text.toList).starts =
    0 :: startsBehind 0 (bytesBefore text text.utf8ByteSize) := by
  have hlength : text.toUTF8.toList.length ≤ text.utf8ByteSize := by rw [length_toUTF8,utf8ByteSize_eq_byteWidth]
  rw [starts_eq (Nat.le_refl _),List.drop_of_length_le hlength]
  exact List.append_nil _

lemma start_le_size {k start : Nat} (hk : (ofText text.toList).starts[k]? = some start) :
    start ≤ text.utf8ByteSize := by
  rw [starts_eq_of_size] at hk
  exact le_of_mem_front (Nat.le_refl _) start (List.mem_of_getElem? hk)

lemma start_lt_start {j k start later : Nat} (hlt : j < k) (hj : (ofText text.toList).starts[j]? = some start)
    (hk : (ofText text.toList).starts[k]? = some later) : start < later := by
  have hpairwise : (ofText text.toList).starts.Pairwise (· < ·) := by
    rw [starts_eq_of_size]
    exact .cons (fun start hstart => (lt_of_mem_startsBehind hstart).1) (pairwise_startsBehind 0 _)
  obtain ⟨hj',rfl⟩ := List.getElem?_eq_some_iff.mp hj
  obtain ⟨hk',rfl⟩ := List.getElem?_eq_some_iff.mp hk
  exact List.pairwise_iff_getElem.mp hpairwise j k hj' hk' hlt

/-- The place of an offset counts the line feeds before it, and the bytes since the last of them. -/
lemma positionAt_eq (h : offset ≤ text.utf8ByteSize) : (ofText text.toList).positionAt offset =
    ⟨.ofNat (1 + lineFeeds (bytesBefore text offset)),.ofNat (1 + sinceLineFeed (bytesBefore text offset))⟩ := by
  have hline : halve (· ≤ offset) (ofText text.toList).starts 0 (ofText text.toList).lineCount =
      lineFeeds (bytesBefore text offset) := by
    -- Halving ends between the lines that start up to the offset and those that start behind it.
    rw [lineCount,starts_eq h,← length_startsBehind 0]
    refine halve_append (fun start hstart => decide_eq_true (le_of_mem_front h start hstart)) fun start hstart => ?_
    have hbehind := (lt_of_mem_startsBehind hstart).1
    simpa using hbehind
  have hmin : min offset (ofText text.toList).size = offset := by
    rw [size_ofText]
    exact Nat.min_eq_left h
  have hwidth : offset - (offset - sinceLineFeed (bytesBefore text offset)) = sinceLineFeed (bytesBefore text offset) := by
    have := lineFeeds_add_sinceLineFeed_le_offset h
    omega
  simp only [positionAt,hmin,hline,start_of_line h,Option.getD_some,hwidth,Nat.add_comm]

lemma offsetAt_eq_some_iff {i : LineIndex} {place : LineColumn} : i.offsetAt place = some offset ↔
    place.line ≠ 0 ∧ place.column ≠ 0 ∧ ∃ start, i.starts[place.line.toNat - 1]? = some start ∧
      start + (place.column.toNat - 1) = offset ∧ offset ≤ i.starts[place.line.toNat]?.getD i.size := by
  unfold offsetAt
  split
  · rename_i hzero
    refine iff_of_false (by simp) ?_
    rintro ⟨hline,hcolumn,-⟩
    exact hzero.elim hline hcolumn
  · rename_i hzero
    rw [not_or] at hzero
    simp only [Option.bind_eq_bind,Option.bind_eq_some_iff,Option.ite_none_right_eq_some,Option.some.injEq]
    constructor
    · rintro ⟨start,hstart,hle,rfl⟩
      exact ⟨hzero.1,hzero.2,start,hstart,rfl,hle⟩
    · rintro ⟨-,-,start,hstart,rfl,hle⟩
      exact ⟨start,hstart,hle,rfl⟩

end LineIndex

/-- Places are compared by line first. -/
def LineColumn.Before (p q : LineColumn) : Prop := p.line < q.line ∨ p.line = q.line ∧ p.column < q.column

instance (p q : LineColumn) : Decidable (p.Before q) :=
  inferInstanceAs (Decidable (p.line < q.line ∨ p.line = q.line ∧ p.column < q.column))

/-- The place stands behind the line feed of its line. -/
def LineColumn.Overruns (place : LineColumn) (text : String) (offset : Nat) : Prop :=
  1 < place.column ∧ (bytesBefore text offset).getLast? = some 10

namespace LineIndex

variable {text : String} {place : LineColumn} {offset : Nat}

/-- Offsets that can be counted from one in 32 bits are numbered so. -/
lemma numbered_of_lt (h : offset + 1 < UInt32.size) : Numbered text offset := by
  have hle := lineFeeds_add_sinceLineFeed_le (bytesBefore text offset)
  have hlength : (bytesBefore text offset).length ≤ offset := List.length_take_le _ _
  exact ⟨by omega,by omega⟩

/-- A later offset has a later place. -/
lemma positionAt_before {earlier : Nat} (h : offset ≤ text.utf8ByteSize) (hnumbered : Numbered text offset)
    (hlt : earlier < offset) :
    ((ofText text.toList).positionAt earlier).Before ((ofText text.toList).positionAt offset) := by
  obtain ⟨hline,hcolumn⟩ := hnumbered
  have hearlier := Nat.le_trans (Nat.le_of_lt hlt) h
  obtain ⟨more,hmore⟩ : bytesBefore text earlier <+: bytesBefore text offset :=
    List.take_prefix_take_left (Nat.le_of_lt hlt)
  have hlength := congrArg List.length hmore
  rw [List.length_append,length_bytesBefore h,length_bytesBefore hearlier] at hlength
  have hfeeds := lineFeeds_append (bytesBefore text earlier) more
  rw [hmore] at hfeeds
  unfold LineColumn.Before
  rw [positionAt_eq h,positionAt_eq hearlier]
  simp only [UInt32.lt_iff_toNat_lt,← UInt32.toNat_inj]
  rw [UInt32.toNat_ofNat_of_lt' hline,UInt32.toNat_ofNat_of_lt' hcolumn,UInt32.toNat_ofNat_of_lt' (by omega)]
  by_cases hsame : lineFeeds more = 0
  · have hsince := sinceLineFeed_append (bytesBefore text earlier) hsame
    rw [hmore] at hsince
    rw [UInt32.toNat_ofNat_of_lt' (by omega)]
    exact .inr ⟨by omega,by omega⟩
  · exact .inl (by omega)

/-- An offset with numbers is found again at its place. -/
lemma offsetAt_positionAt (h : offset ≤ text.utf8ByteSize) (hnumbered : Numbered text offset) :
    (ofText text.toList).offsetAt ((ofText text.toList).positionAt offset) = some offset := by
  obtain ⟨hline,hcolumn⟩ := hnumbered
  have hle := lineFeeds_add_sinceLineFeed_le_offset h
  have hnonzero (n : Nat) (hn : 1 + n < UInt32.size) : UInt32.ofNat (1 + n) ≠ 0 := by
    rw [← UInt32.toNat_inj.ne,UInt32.toNat_ofNat_of_lt' hn]
    exact Nat.ne_of_gt (Nat.add_pos_left Nat.one_pos n)
  rw [positionAt_eq h,offsetAt_eq_some_iff]
  refine ⟨hnonzero _ hline,hnonzero _ hcolumn,offset - sinceLineFeed (bytesBefore text offset),?_,?_,?_⟩
  · rw [UInt32.toNat_ofNat_of_lt' hline,Nat.add_sub_cancel_left,start_of_line h]
  · rw [UInt32.toNat_ofNat_of_lt' hcolumn]
    omega
  · rw [UInt32.toNat_ofNat_of_lt' hline,size_ofText]
    cases hnext : (ofText text.toList).starts[1 + lineFeeds (bytesBefore text offset)]? with
    | none => exact h
    | some next =>
      have hbehind := (start_le_iff h hnext).not.mpr (by omega)
      exact Nat.le_of_not_le hbehind

lemma le_size_of_offsetAt (h : (ofText text.toList).offsetAt place = some offset) : offset ≤ text.utf8ByteSize := by
  obtain ⟨-,-,-,-,-,hstop⟩ := offsetAt_eq_some_iff.mp h
  rw [size_ofText] at hstop
  cases hnext : (ofText text.toList).starts[place.line.toNat]? with
  | none => rwa [hnext] at hstop
  | some stop =>
    rw [hnext] at hstop
    exact Nat.le_trans hstop (start_le_size hnext)

/-- An offset on the line of its place is counted as the place says. -/
lemma counts_of_line_lt (h : (ofText text.toList).offsetAt place = some offset)
    (hlt : lineFeeds (bytesBefore text offset) < place.line.toNat) :
    1 + lineFeeds (bytesBefore text offset) = place.line.toNat ∧
      1 + sinceLineFeed (bytesBefore text offset) = place.column.toNat := by
  have hsize := le_size_of_offsetAt h
  have hsum := lineFeeds_add_sinceLineFeed_le_offset hsize
  have hown := start_of_line hsize
  obtain ⟨-,hcolumn,start,hstart,hoffset,-⟩ := offsetAt_eq_some_iff.mp h
  have hcolumn : place.column.toNat ≠ 0 := UInt32.toNat_inj.ne.mpr hcolumn
  have hle := (start_le_iff hsize hstart).mp (by omega)
  rw [show lineFeeds (bytesBefore text offset) = place.line.toNat - 1 by omega,hstart] at hown
  have hstart := Option.some.inj hown
  omega

/-- An offset that is not on the line of its place is the start of the next line. -/
lemma counts_of_line_le (h : (ofText text.toList).offsetAt place = some offset)
    (hle : place.line.toNat ≤ lineFeeds (bytesBefore text offset)) :
    lineFeeds (bytesBefore text offset) = place.line.toNat ∧ sinceLineFeed (bytesBefore text offset) = 0 ∧
      1 < place.column.toNat := by
  have hsize := le_size_of_offsetAt h
  have hsum := lineFeeds_add_sinceLineFeed_le_offset hsize
  have hown := start_of_line hsize
  obtain ⟨hline,-,start,hstart,hoffset,hstop⟩ := offsetAt_eq_some_iff.mp h
  have hline : place.line.toNat ≠ 0 := UInt32.toNat_inj.ne.mpr hline
  obtain ⟨hindex,-⟩ := List.getElem?_eq_some_iff.mp hown
  have hnext := List.getElem?_eq_getElem (Nat.lt_of_le_of_lt hle hindex)
  have hreached := (start_le_iff hsize hnext).mpr hle
  have hbefore := start_lt_start (by omega) hstart hnext
  rw [hnext,Option.getD_some] at hstop
  have hfeeds : lineFeeds (bytesBefore text offset) = place.line.toNat := by
    refine Nat.le_antisymm (Nat.le_of_not_lt fun hlt => ?_) hle
    have := start_lt_start hlt hnext hown
    omega
  -- So the next line starts at the offset, and the line of the place before it.
  rw [hfeeds,hnext] at hown
  have hnext := Option.some.inj hown
  omega

/-- A place is that of its offset unless it stands behind the line feed of its line. -/
lemma positionAt_cases (h : (ofText text.toList).offsetAt place = some offset) :
    (ofText text.toList).positionAt offset = place ∧ ¬place.Overruns text offset ∨
      (ofText text.toList).positionAt offset = ⟨place.line + 1,1⟩ ∧ place.Overruns text offset := by
  have hsize := le_size_of_offsetAt h
  have hsince := sinceLineFeed_eq_zero_iff (bytesBefore text offset)
  rw [positionAt_eq hsize]
  obtain hlt | hle := Nat.lt_or_ge (lineFeeds (bytesBefore text offset)) place.line.toNat
  · obtain ⟨hline,hcolumn⟩ := counts_of_line_lt h hlt
    refine .inl ⟨by rw [hline,hcolumn,UInt32.ofNat_toNat,UInt32.ofNat_toNat],fun hoverruns => ?_⟩
    have hlater : 1 < place.column.toNat := UInt32.lt_iff_toNat_lt.mp hoverruns.1
    rw [hsince.mpr (.inr hoverruns.2)] at hcolumn
    omega
  · obtain ⟨hline,hzero,hlater⟩ := counts_of_line_le h hle
    refine .inr ⟨?_,UInt32.lt_iff_toNat_lt.mpr hlater,(hsince.mp hzero).resolve_left fun hnil => ?_⟩
    · rw [hline,hzero,Nat.add_comm,UInt32.ofNat_add,UInt32.ofNat_toNat]
      rfl
    · rw [hnil] at hline
      have := (offsetAt_eq_some_iff.mp h).1
      exact this (UInt32.toNat_inj.mp hline.symm)

/-- An offset whose numbers are too great for its place is not found there. -/
lemma numbered_of_offsetAt_positionAt (h : offset ≤ text.utf8ByteSize)
    (hfound : (ofText text.toList).offsetAt ((ofText text.toList).positionAt offset) = some offset) :
    Numbered text offset := by
  rw [positionAt_eq h] at hfound
  obtain hlt | hle := Nat.lt_or_ge (lineFeeds (bytesBefore text offset))
    (UInt32.ofNat (1 + lineFeeds (bytesBefore text offset))).toNat
  · obtain ⟨hline,hcolumn⟩ := counts_of_line_lt hfound hlt
    exact ⟨hline ▸ UInt32.toNat_lt_size _,hcolumn ▸ UInt32.toNat_lt_size _⟩
  · obtain ⟨-,hzero,hlater⟩ := counts_of_line_le hfound hle
    rw [hzero] at hlater
    exact absurd hlater (Nat.lt_irrefl 1)

/-- Of the offsets below 2³² only the last one can have a number that is too great, if all before it is one line or
there are line feeds only. -/
lemma numbered_iff_of_lt (h : offset ≤ text.utf8ByteSize) (hlt : offset < UInt32.size) : Numbered text offset ↔
    (offset + 1 = UInt32.size →
      lineFeeds (bytesBefore text offset) ≠ 0 ∧ lineFeeds (bytesBefore text offset) ≠ offset) := by
  have hsum := lineFeeds_add_sinceLineFeed_le_offset h
  have hlast : lineFeeds (bytesBefore text offset) = 0 → sinceLineFeed (bytesBefore text offset) = offset := by
    intro hnone
    rw [sinceLineFeed_of_none hnone,length_bytesBefore h]
  constructor
  · rintro ⟨hline,hcolumn⟩ hend
    exact ⟨fun hnone => by have := hlast hnone; omega,by omega⟩
  · intro hends
    by_cases hend : offset + 1 = UInt32.size
    · obtain ⟨hsome,hother⟩ := hends hend
      exact ⟨by omega,by omega⟩
    · exact numbered_of_lt (by omega)

/-- The place of an offset counts from one the line feeds before it and the bytes since the last of them. The offset
is found again at its place, and earlier offsets have earlier places, where both numbers have 32 bits. In a text of
less than 2³² bytes they have everywhere but at the end of one of 2³² - 1 bytes that is one line, or has nothing but
line feeds. All that is past the end is placed at the end. -/
theorem positionAt_counts (text : String) :
    (∀ offset ≤ text.utf8ByteSize, (ofText text.toList).positionAt offset =
      ⟨.ofNat (1 + lineFeeds (bytesBefore text offset)),.ofNat (1 + sinceLineFeed (bytesBefore text offset))⟩) ∧
    (∀ offset ≤ text.utf8ByteSize,
      ((ofText text.toList).offsetAt ((ofText text.toList).positionAt offset) = some offset ↔ Numbered text offset) ∧
      (Numbered text offset → ∀ earlier < offset,
        ((ofText text.toList).positionAt earlier).Before ((ofText text.toList).positionAt offset))) ∧
    (∀ offset ≤ text.utf8ByteSize, offset < UInt32.size → (Numbered text offset ↔
      (offset + 1 = UInt32.size →
        lineFeeds (bytesBefore text offset) ≠ 0 ∧ lineFeeds (bytesBefore text offset) ≠ offset))) ∧
    ∀ past, text.utf8ByteSize ≤ past →
      (ofText text.toList).positionAt past = (ofText text.toList).positionAt text.utf8ByteSize := by
  refine ⟨fun offset h => positionAt_eq h,fun offset h => ⟨?_,?_⟩,fun offset => numbered_iff_of_lt,fun past h => ?_⟩
  · exact ⟨numbered_of_offsetAt_positionAt h,offsetAt_positionAt h⟩
  · exact fun hnumbered earlier hlt => positionAt_before h hnumbered hlt
  · unfold positionAt
    rw [size_ofText,Nat.min_eq_right h,Nat.min_self]

/-- The offset behind a line feed starts a line. -/
theorem positionAt_counts_line_start : 3 ≤ "ab\ncd".utf8ByteSize ∧ 3 < UInt32.size ∧
    (ofText "ab\ncd".toList).positionAt 3 = ⟨2,1⟩ ∧
      (ofText "ab\ncd".toList).offsetAt ((ofText "ab\ncd".toList).positionAt 3) = some 3 := by
  have hsize : 3 ≤ "ab\ncd".utf8ByteSize := by decide +kernel
  obtain ⟨hplaces,hfound,hnumbered,-⟩ := positionAt_counts "ab\ncd"
  have hplace := hplaces 3 hsize
  have hfeeds : lineFeeds (bytesBefore "ab\ncd" 3) = 1 ∧ sinceLineFeed (bytesBefore "ab\ncd" 3) = 0 := by
    decide +kernel
  rw [hfeeds.1,hfeeds.2] at hplace
  have hcounts : Numbered "ab\ncd" 3 := (hnumbered 3 hsize (by decide)).mpr fun hend => absurd hend (by decide)
  exact ⟨hsize,by decide,hplace,(hfound 3 hsize).1.mpr hcounts⟩

section repeated

variable {c : Char} {b : UInt8}

/-- The bytes of a character of one byte that is written over and over. -/
lemma toUTF8_replicate (hc : String.utf8EncodeChar c = [b]) (n : Nat) :
    (String.ofList (List.replicate n c)).toUTF8.toList = List.replicate n b := by
  rw [toUTF8_toList,String.toList_ofList,List.flatMap_replicate,hc,List.flatten_replicate_singleton]

lemma bytesBefore_replicate (hc : String.utf8EncodeChar c = [b]) (n : Nat) :
    bytesBefore (String.ofList (List.replicate n c)) n = List.replicate n b := by
  rw [bytesBefore,toUTF8_replicate hc]
  exact List.take_of_length_le (Nat.le_of_eq List.length_replicate)

lemma utf8ByteSize_replicate (hc : String.utf8EncodeChar c = [b]) (n : Nat) :
    (String.ofList (List.replicate n c)).utf8ByteSize = n := by
  rw [utf8ByteSize_eq_byteWidth,← length_toUTF8,toUTF8_replicate hc,List.length_replicate]

/-- The places of the start and of the end of such a text. -/
lemma positionAt_replicate (hc : String.utf8EncodeChar c = [b]) (n : Nat) :
    (ofText (String.ofList (List.replicate n c)).toList).positionAt 0 = ⟨1,1⟩ ∧
      (ofText (String.ofList (List.replicate n c)).toList).positionAt n =
        if b = 10 then ⟨.ofNat (1 + n),1⟩ else ⟨1,.ofNat (1 + n)⟩ := by
  have hsize := utf8ByteSize_replicate hc n
  refine ⟨positionAt_eq (Nat.zero_le _),?_⟩
  rw [positionAt_eq (Nat.le_of_eq hsize.symm),bytesBefore_replicate hc,lineFeeds,List.count_replicate]
  by_cases hb : b = 10
  · have hnone : sinceLineFeed (List.replicate n b) = 0 := by
      rw [sinceLineFeed_eq_zero_iff]
      cases n with
      | zero => exact .inl rfl
      | succ n => exact .inr (by rw [List.replicate_succ',List.getLast?_concat,hb])
    rw [hnone,if_pos hb,if_pos (by simpa using hb)]
    rfl
  · have hnone : lineFeeds (List.replicate n b) = 0 := by
      rw [lineFeeds,List.count_replicate,if_neg (by simpa using hb)]
    rw [sinceLineFeed_of_none hnone,List.length_replicate,if_neg hb,if_neg (by simpa using hb)]
    rfl

end repeated

/-- The end of a text of 2³² - 1 bytes that is one line has no column of 32 bits, and if the text has only line feeds
it has no line of 32 bits. Nothing is found at its place, which does not come behind that of the start. -/
theorem positionAt_wraps_at_end :
    (let text := String.ofList (List.replicate 0xFFFFFFFF 'a');
      text.utf8ByteSize = 0xFFFFFFFF ∧ (ofText text.toList).positionAt 0xFFFFFFFF = ⟨1,0⟩ ∧
        (ofText text.toList).offsetAt ((ofText text.toList).positionAt 0xFFFFFFFF) = none ∧
          ¬((ofText text.toList).positionAt 0).Before ((ofText text.toList).positionAt 0xFFFFFFFF)) ∧
    (let text := String.ofList (List.replicate 0xFFFFFFFF '\n');
      text.utf8ByteSize = 0xFFFFFFFF ∧ (ofText text.toList).positionAt 0xFFFFFFFF = ⟨0,1⟩ ∧
        (ofText text.toList).offsetAt ((ofText text.toList).positionAt 0xFFFFFFFF) = none ∧
          ¬((ofText text.toList).positionAt 0).Before ((ofText text.toList).positionAt 0xFFFFFFFF)) := by
  have hletter : String.utf8EncodeChar 'a' = [97] := by decide
  have hfeed : String.utf8EncodeChar '\n' = [10] := by decide
  obtain ⟨hstart,hend⟩ := positionAt_replicate hletter 0xFFFFFFFF
  obtain ⟨hstart',hend'⟩ := positionAt_replicate hfeed 0xFFFFFFFF
  rw [if_neg (by decide)] at hend
  rw [if_pos rfl] at hend'
  refine ⟨⟨utf8ByteSize_replicate hletter _,hend,?_,?_⟩,⟨utf8ByteSize_replicate hfeed _,hend',?_,?_⟩⟩
  · rw [hend]
    exact if_pos (.inr rfl)
  · rw [hstart,hend]
    decide
  · rw [hend']
    exact if_pos (.inl rfl)
  · rw [hstart',hend']
    decide

/-- Two places of one offset on one line are one place. -/
lemma eq_of_line {i : LineIndex} {other : LineColumn} (hother : i.offsetAt other = some offset)
    (h : i.offsetAt place = some offset) (hline : other.line = place.line) : other = place := by
  obtain ⟨-,hcolumn,start,hstart,hoffset,-⟩ := offsetAt_eq_some_iff.mp h
  obtain ⟨-,hcolumn',start',hstart',hoffset',-⟩ := offsetAt_eq_some_iff.mp hother
  rw [hline,hstart] at hstart'
  obtain rfl := Option.some.inj hstart'
  have hcolumn : place.column.toNat ≠ 0 := UInt32.toNat_inj.ne.mpr hcolumn
  have hcolumn' : other.column.toNat ≠ 0 := UInt32.toNat_inj.ne.mpr hcolumn'
  have hsame : other.column = place.column := UInt32.toNat_inj.mp (by omega)
  cases other
  cases place
  simp_all

/-- A place is the place of its offset exactly if it does not stand behind the line feed of its line. One that does
has the offset of the start of the next line. So an offset has one place of either kind at most. -/
theorem positionAt_eq_iff (h : (ofText text.toList).offsetAt place = some offset) :
    ((ofText text.toList).positionAt offset = place ↔ ¬place.Overruns text offset) ∧
    (place.Overruns text offset → (ofText text.toList).positionAt offset = ⟨place.line + 1,1⟩) ∧
    ∀ other, (ofText text.toList).offsetAt other = some offset →
      (other.Overruns text offset ↔ place.Overruns text offset) → other = place := by
  have hcases := positionAt_cases h
  refine ⟨?_,?_,fun other hother hsame => ?_⟩
  · obtain ⟨hown,hnot⟩ | ⟨hnext,hoverruns⟩ := hcases
    · exact iff_of_true hown hnot
    · refine iff_of_false (fun hown => ?_) (not_not_intro hoverruns)
      have hcolumn := hoverruns.1
      rw [← hown,hnext] at hcolumn
      exact UInt32.lt_irrefl 1 hcolumn
  · intro hoverruns
    exact (hcases.resolve_left fun hown => hown.2 hoverruns).1
  · obtain ⟨hown,hnot⟩ | ⟨hnext,hoverruns⟩ := hcases
    · exact ((positionAt_cases hother).resolve_right fun hnext => hnot (hsame.mp hnext.2)).1.symm.trans hown
    · have hother' := (positionAt_cases hother).resolve_left fun hown => hown.2 (hsame.mpr hoverruns)
      obtain ⟨hline,-⟩ := LineColumn.mk.inj (hother'.1.symm.trans hnext)
      exact eq_of_line hother h ((UInt32.add_left_inj 1).mp hline)

theorem positionAt_eq_iff_at_feed : (ofText "ab\ncd".toList).offsetAt ⟨1,3⟩ = some 2 ∧
    (ofText "ab\ncd".toList).positionAt 2 = ⟨1,3⟩ := by
  have hfound : (ofText "ab\ncd".toList).offsetAt ⟨1,3⟩ = some 2 := by decide +kernel
  have hnot : ¬LineColumn.Overruns ⟨1,3⟩ "ab\ncd" 2 := fun h => absurd h.2 (by decide +kernel)
  exact ⟨hfound,(positionAt_eq_iff hfound).1.mpr hnot⟩

/-- Behind the line feed of the first line stands the start of the second. -/
theorem offsetAt_behind_line_feed : (ofText "ab\ncd".toList).offsetAt ⟨1,4⟩ = some 3 ∧
    (ofText "ab\ncd".toList).offsetAt ⟨2,1⟩ = some 3 ∧ (ofText "ab\ncd".toList).positionAt 3 = ⟨2,1⟩ := by
  decide +kernel

end LineIndex

end QmlCodeModel
