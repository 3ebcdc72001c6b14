import QmlCodeModel.Grammar.Goal
import QmlCodeModel.Proofs.Grammar.Loop
import QmlCodeModel.Proofs.Text.Slice
import QmlCodeModel.Proofs.Token.Piece

/-! Reading a text of pieces. A state stands before the pieces that it has not taken, and a part of the
grammar goes past those that belong to it, without a complaint. -/
namespace QmlCodeModel

/-- The place of pieces that start at an offset, without the gap before the first. -/
def placeOf (offset : Nat) : List Piece → Span
  | [] => ⟨offset,offset⟩
  | p :: pieces => ⟨offset + byteWidth p.gap.chars,offset + byteWidth (written (p :: pieces))⟩

lemma stop_placeOf (offset : Nat) (pieces : List Piece) :
    (placeOf offset pieces).stop = offset + byteWidth (written pieces) := by
  cases pieces <;> rfl

/-- A source has the text of pieces where they stand. -/
lemma HasFrom.slice_place {source : String} {offset : Nat} {pieces later : List Piece}
    (h : HasFrom source offset (written (pieces ++ later))) :
    sliceText? source (placeOf offset pieces) = some (String.ofList (bare pieces)) := by
  rw [written_append] at h
  cases pieces with
  | nil =>
    have h : HasFrom source offset ([] ++ written later) := h
    exact h.slice
  | cons p pieces =>
    have hsplit : written (p :: pieces) = p.gap.chars ++ bare (p :: pieces) := by
      simp [written_cons,Piece.chars,bare]
    rw [hsplit,List.append_assoc] at h
    have := h.drop.slice
    rwa [Nat.add_assoc,← byteWidth_append,← hsplit] at this

namespace Grammar

/-- The state stands in a source before these pieces, with which the source ends. -/
structure State.Before (source : String) (s : State) (pieces : List Piece) : Prop where
  rest : s.rest = tokensAt s.previousStop pieces
  eof : s.eof.kind = .eof
  text : HasFrom source s.previousStop (written pieces)

/-- From one state to another these pieces are taken, and nothing else changes but the nodes. -/
structure State.Passed (s : State) (pieces : List Piece) (t : State) : Prop where
  stop : t.previousStop = s.previousStop + byteWidth (written pieces)
  taken : t.taken = s.taken + pieces.length
  depth : t.depth = s.depth
  allowIn : t.allowIn = s.allowIn
  inAsync : t.inAsync = s.inAsync
  inGenerator : t.inGenerator = s.inGenerator
  diagnostics : t.diagnostics = s.diagnostics

/-- What a part comes to that goes past some pieces and stops before others. -/
def Past {α : Type} (source : String) (s : State) (pieces later : List Piece) (post : α → Prop) (a : α)
    (t : State) : Prop :=
  post a ∧ t.Before source later ∧ s.Passed pieces t

/-- What a part comes to that makes a node of the pieces that it goes past. -/
def Covers (source : String) (s : State) (pieces later : List Piece) : Node → State → Prop :=
  Past source s pieces later fun n => n.span = placeOf s.previousStop pieces

namespace State

variable {source : String} {s t u : State} {p q : Piece} {pieces later : List Piece}

lemma Passed.refl (s : State) : s.Passed [] s := ⟨rfl,rfl,rfl,rfl,rfl,rfl,rfl⟩

lemma Passed.trans (h : s.Passed pieces t) (h' : t.Passed later u) : s.Passed (pieces ++ later) u where
  stop := by rw [h'.stop,h.stop,written_append,byteWidth_append,Nat.add_assoc]
  taken := by rw [h'.taken,h.taken,List.length_append,Nat.add_assoc]
  depth := h'.depth.trans h.depth
  allowIn := h'.allowIn.trans h.allowIn
  inAsync := h'.inAsync.trans h.inAsync
  inGenerator := h'.inGenerator.trans h.inGenerator
  diagnostics := h'.diagnostics.trans h.diagnostics

/-- The text of a value goes to the end of what ends with it. -/
lemma Passed.slice_value {value : List Piece} (h : s.Passed pieces t)
    (ht : t.Before source (value ++ later)) :
    sliceText? source
      ⟨(placeOf t.previousStop value).start,(placeOf s.previousStop (pieces ++ value)).stop⟩ =
        some (String.ofList (bare value)) := by
  have hstop : (placeOf s.previousStop (pieces ++ value)).stop = (placeOf t.previousStop value).stop := by
    rw [stop_placeOf,stop_placeOf,h.stop,written_append,byteWidth_append,Nat.add_assoc]
  rw [hstop]
  exact ht.text.slice_place

namespace Before

lemma peek_cons (h : s.Before source (p :: later)) : s.peek = p.token s.previousStop := by
  rw [peek,h.rest]
  rfl

lemma front_cons (h : s.Before source (p :: later)) :
    s.front = s.previousStop + byteWidth p.gap.chars := by
  rw [front,h.peek_cons]
  rfl

lemma ahead_one (h : s.Before source (p :: q :: later)) :
    s.ahead 1 = q.token (s.previousStop + p.width) := by
  rw [ahead,h.rest]
  rfl

/-- The pieces are the same one level deeper. -/
lemma deeper (h : s.Before source later) (depth : Nat) : { s with depth }.Before source later :=
  ⟨h.rest,h.eof,h.text⟩

/-- Taking the next piece. -/
lemma advance (h : s.Before source (p :: later)) :
    s.advance.Before source later ∧ s.Passed [p] s.advance := by
  have hadvance : s.advance = { s with
      rest := tokensAt (s.previousStop + p.width) later, taken := s.taken + 1
      previousStop := s.previousStop + p.width } := by
    unfold State.advance
    rw [h.rest]
    rfl
  have hwritten : byteWidth (written [p]) = p.width := by simp [written,Piece.width]
  have htext := h.text
  rw [written_cons] at htext
  rw [hadvance]
  exact ⟨⟨rfl,h.eof,htext.drop⟩,by rw [hwritten],rfl,rfl,rfl,rfl,rfl,rfl⟩

end Before

end State

section

variable {α β : Type} {source : String} {s t : State} {p : Piece} {pieces later : List Piece}

lemma ends_bump {tokens : List Token} {k : Token → Parser β} {post : β → State → Prop} :
    Ends tokens (bump >>= k) s post ↔ Ends tokens (k s.peek) s.advance post := Iff.rfl

/-- What goes on after a part that goes past pieces, where others have been passed before. -/
lemma Ends.past {part : Parser α} {k : α → Parser β} {post : α → Prop} {goal : β → State → Prop}
    {before : List Piece} (h : Ends [] part t (Past source t pieces later post)) (hs : s.Passed before t)
    (hk : ∀ a u, post a → u.Before source later → s.Passed (before ++ pieces) u →
      Ends [] (k a) u goal) : Ends [] (part >>= k) t goal :=
  h.bind fun a u hu => hk a u hu.1 hu.2.1 (hs.trans hu.2.2)

/-- A goal goes past pieces one level deeper. -/
lemma ends_nested {go : Reader} {goal : Goal} {post : Node → Prop} (hdepth : s.depth < maxNesting)
    (h : Ends [] (go goal) { s with depth := s.depth + 1 }
      (Past source { s with depth := s.depth + 1 } pieces later post)) :
    Ends [] (nested go goal) s (Past source s pieces later post) := by
  unfold nested
  rw [ends_get,if_neg (Nat.not_le.mpr hdepth),ends_modify]
  refine h.bind fun n t ht => ?_
  obtain ⟨hpost,hbefore,hpassed⟩ := ht
  rw [ends_modify]
  refine ⟨hpost,⟨hbefore.rest,hbefore.eof,hbefore.text⟩,⟨hpassed.stop,hpassed.taken,?_,hpassed.allowIn,
    hpassed.inAsync,hpassed.inGenerator,hpassed.diagnostics⟩⟩
  simp [hpassed.depth]

/-- A loop that is left at once. -/
lemma iterate_none {step : α → Parser (Option α)} {a : α} (h : step a t = .ok (none,t)) :
    iterate step a t = .ok (a,t) := by
  change iterateWithin step (t.rest.length + 1) a t = .ok (a,t)
  unfold iterateWithin
  simp only [bind,StateT.bind,h,Except.bind]
  rfl

/-- A part that takes a token is left as it is. -/
lemma ends_progressing {part : Parser α} {post : α → Prop}
    (h : Ends [] part s (Past source s (p :: pieces) later post)) :
    Ends [] (progressing part) s (Past source s (p :: pieces) later post) := by
  unfold progressing
  change Ends [] (part >>= fun a => taken >>= fun n => skipIf (n == s.taken) >>= fun _ => pure a) s _
  refine h.bind fun a t ht => ?_
  have htaken : (t.taken == s.taken) = false := by simp [ht.2.2.taken]
  change Ends [] (skipIf (t.taken == s.taken) >>= fun _ => pure a) t _
  rw [htaken]
  exact ht

/-- Leaving a punctuator that is not there. -/
lemma eatPunct_absent {text : String} (h : s.peek.isPunct text = false) :
    eatPunct text s = .ok (false,s) := by
  change (if s.peek.isPunct text then _ else _ : Parser Bool) s = _
  rw [h]
  rfl

/-- Taking a punctuator that is there. -/
lemma eatPunct_mark {gap : Gap} {m : Mark} {text : String}
    (h : s.Before source (⟨gap,.mark m⟩ :: later)) (htext : m.text = text) :
    eatPunct text s = .ok (true,s.advance) := by
  refine eatPunct_present ?_
  rw [h.peek_cons,Piece.token_mark_isPunct,htext,beq_self_eq_true]

lemma expectPunct_mark {gap : Gap} {m : Mark} {text : String}
    (h : s.Before source (⟨gap,.mark m⟩ :: later)) (htext : m.text = text) :
    expectPunct text s = .ok (true,s.advance) := by
  refine expectPunct_present ?_
  rw [h.peek_cons,Piece.token_mark_isPunct,htext,beq_self_eq_true]

lemma discard_expectPunct {gap : Gap} {m : Mark} {text : String}
    (h : s.Before source (⟨gap,.mark m⟩ :: later)) (htext : m.text = text) :
    discard (expectPunct text) s = .ok ((),s.advance) := by
  refine discard_expectPunct_present ?_
  rw [h.peek_cons,Piece.token_mark_isPunct,htext,beq_self_eq_true]

/-- From the first piece that has been passed to here. -/
lemma State.Passed.spanFrom (h : s.Passed (p :: pieces) t) :
    t.spanFrom (s.previousStop + byteWidth p.gap.chars) = placeOf s.previousStop (p :: pieces) := by
  have hle : byteWidth p.gap.chars ≤ byteWidth (written (p :: pieces)) := by
    rw [written_cons,Piece.chars,byteWidth_append,byteWidth_append]
    omega
  simp only [State.spanFrom,placeOf,h.stop]
  rw [Nat.max_eq_left (Nat.add_le_add_left hle _)]

/-- Making a node leaves the pieces as they are. -/
lemma ends_make {span : Span} {kind : Kind Node} {post : Node → Prop} (hs : s.Passed pieces t)
    (ht : t.Before source later) (h : ∀ id, post ⟨id,span,kind⟩) :
    Ends [] (make span kind) t (Past source s pieces later post) :=
  ⟨h _,⟨ht.rest,ht.eof,ht.text⟩,⟨hs.stop,hs.taken,hs.depth,hs.allowIn,hs.inAsync,hs.inGenerator,
    hs.diagnostics⟩⟩

/-- A node is made of the pieces that have been passed. -/
lemma ends_finish {kind : Kind Node} {post : Node → Prop} (hs : s.Passed (p :: pieces) t)
    (ht : t.Before source later) (h : ∀ id, post ⟨id,placeOf s.previousStop (p :: pieces),kind⟩) :
    Ends [] (finish kind (s.previousStop + byteWidth p.gap.chars)) t
      (Past source s (p :: pieces) later post) := by
  change Ends [] (make (t.spanFrom _) kind) t _
  rw [hs.spanFrom]
  exact ends_make hs ht h

end

end Grammar

end QmlCodeModel
