import Mathlib.Tactic.Common
import QmlCodeModel.Text.Span

/-! What a source has at an offset, and the slices of it. -/
namespace QmlCodeModel

lemma dropBytes?_append (before text : List Char) :
    dropBytes? (byteWidth before) (before ++ text) = some text := by
  induction before with
  | nil => rw [byteWidth_nil,dropBytes?]; rfl
  | cons c before ih =>
    obtain ⟨n,hn⟩ : ∃ n, c.utf8Size + byteWidth before = n + 1 :=
      Nat.exists_eq_succ_of_ne_zero (Nat.ne_of_gt (Nat.add_pos_left c.utf8Size_pos _))
    rw [byteWidth_cons,List.cons_append,hn,dropBytes?,← hn,if_pos (Nat.le_add_right _ _),
      Nat.add_sub_cancel_left,ih]

lemma takeBytes?_append (text later : List Char) :
    takeBytes? (byteWidth text) (text ++ later) = some text := by
  induction text with
  | nil => rw [byteWidth_nil,takeBytes?]
  | cons c text ih =>
    obtain ⟨n,hn⟩ : ∃ n, c.utf8Size + byteWidth text = n + 1 :=
      Nat.exists_eq_succ_of_ne_zero (Nat.ne_of_gt (Nat.add_pos_left c.utf8Size_pos _))
    rw [byteWidth_cons,List.cons_append,hn,takeBytes?,← hn,if_pos (Nat.le_add_right _ _),
      Nat.add_sub_cancel_left,ih]
    rfl

lemma takeBytes?_eq_some {count : Nat} {text part : List Char} (h : takeBytes? count text = some part) :
    byteWidth part = count := by
  fun_induction takeBytes? count text generalizing part with
  | case1 =>
    cases h
    rfl
  | case2 => cases h
  | case3 count c rest hle ih =>
    obtain ⟨part,hpart,rfl⟩ := Option.map_eq_some_iff.mp h
    rw [byteWidth_cons,ih hpart]
    omega
  | case4 => cases h

/-- The text in a span is as long as the span. -/
lemma byteWidth_of_sliceText? {source part : String} {s : Span} (h : sliceText? source s = some part) :
    byteWidth part.toList = s.stop - s.start := by
  unfold sliceText? at h
  split at h
  · obtain ⟨rest,-,h⟩ := Option.bind_eq_some_iff.mp h
    obtain ⟨taken,htaken,⟨⟩⟩ := Option.bind_eq_some_iff.mp h
    rw [String.toList_ofList]
    exact takeBytes?_eq_some htaken
  · cases h

/-- From an offset on, a source has this text. -/
def HasFrom (source : String) (offset : Nat) (text : List Char) : Prop :=
  ∃ before, source.toList = before ++ text ∧ byteWidth before = offset

namespace HasFrom

variable {source : String} {offset : Nat} {text later : List Char}

lemma drop (h : HasFrom source offset (text ++ later)) :
    HasFrom source (offset + byteWidth text) later := by
  obtain ⟨before,hsource,hwidth⟩ := h
  exact ⟨before ++ text,by rw [hsource,List.append_assoc],by rw [byteWidth_append,hwidth]⟩

/-- The slice over a text that stands there is that text. -/
theorem slice (h : HasFrom source offset (text ++ later)) :
    sliceText? source ⟨offset,offset + byteWidth text⟩ = some (String.ofList text) := by
  obtain ⟨before,hsource,rfl⟩ := h
  unfold sliceText?
  rw [if_pos (Nat.le_add_right _ _),hsource,dropBytes?_append,Nat.add_sub_cancel_left]
  simp [takeBytes?_append]

end HasFrom

end QmlCodeModel
