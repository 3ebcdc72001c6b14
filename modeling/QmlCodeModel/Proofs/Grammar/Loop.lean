import QmlCodeModel.Proofs.Grammar.Steps

/-! Loops of the grammar. A round or a step that goes on has taken a token, so the rounds do not run out
before the loop is left. -/
namespace QmlCodeModel.Grammar

variable {α : Type} {m : Nat} {s t : State} {xs : List Node}

lemma State.rest_ne_nil (heof : s.eof.kind = .eof) (h : s.peek.kind ≠ .eof) : s.rest ≠ [] := by
  intro hrest
  apply h
  simpa [peek,hrest] using heof

lemma State.length_advance_lt (h : s.rest ≠ []) : s.advance.rest.length < s.rest.length := by
  obtain ⟨t,rest,hrest⟩ := List.exists_cons_of_ne_nil h
  simp [advance,hrest]

/-- Taking a token that is not the end of the source. -/
lemma State.Within.advance_lt (hs : s.Within m) (h : s.peek.kind ≠ .eof) :
    s.advance.rest.length < s.rest.length :=
  length_advance_lt (rest_ne_nil hs.eof h)

lemma kind_ne_eof_of_isPunct {text : String} (t : Token) (h : t.isPunct text) : t.kind ≠ .eof := by
  simp only [Token.isPunct,Bool.and_eq_true,beq_iff_eq] at h
  simp [h.1]

lemma kind_ne_eof_of_isName {text : String} (t : Token) (h : t.isName text) : t.kind ≠ .eof := by
  simp only [Token.isName,Bool.and_eq_true,beq_iff_eq] at h
  simp [h.1]

/-- What follows a test that takes a token: either it was there and has been taken, or it was not. -/
lemma ends_eat {tokens : List Token} {test : Token → Bool} {k : Bool → Parser α}
    {post : α → State → Prop} (htrue : test s.peek → Ends tokens (k true) s.advance post)
    (hfalse : ¬test s.peek → Ends tokens (k false) s post) : Ends tokens (eat test >>= k) s post := by
  rw [ends_bind]
  change Ends tokens (if test s.peek then discard bump >>= fun _ => pure true else pure false) s _
  split
  · exact htrue ‹_›
  · exact hfalse ‹_›

/-! Taking a punctuator that is there. -/

section

variable {text : String} (h : s.peek.isPunct text)
include h

lemma eatPunct_present : eatPunct text s = .ok (true,s.advance) := by
  change (if s.peek.isPunct text then _ else _ : Parser Bool) s = _
  rw [if_pos h]
  rfl

lemma expectPunct_present : expectPunct text s = .ok (true,s.advance) := by
  have heat := eatPunct_present h
  unfold eatPunct at heat
  unfold expectPunct expect
  simp only [bind,StateT.bind,heat,Except.bind]
  rfl

lemma discard_expectPunct_present : discard (expectPunct text) s = .ok ((),s.advance) := by
  change ((fun _ => ()) <$> expectPunct text) s = _
  simp only [Functor.map,StateT.map,bind,Except.bind,expectPunct_present h]
  rfl

end

/-- A token is taken, and then a part goes on. -/
lemma takes_skip {p : Parser α} {f : α → List Node} (hp : Resumes m s xs p f) :
    Takes m s xs (discard bump >>= fun _ => p) f := by
  intro hs t ht hkind
  have hlt := (ht.follows.within hs).advance_lt hkind
  have hp := hp hs t.advance ((ht.append (.token t)).congr (by simp) rfl)
  refine hp.mono fun _ u hu => ?_
  exact ⟨hu.1,hu.2.trans t.follows_advance.rest,Nat.lt_of_le_of_lt hu.2.length_le hlt⟩

section Progressing

variable [Bears α] {p : Parser α}

/-- A part made to progress takes a token where there is one. -/
lemma progressing_takes (hp : Reading m p) (hs : s.Within m) : Ends s.rest (progressing p) s
    fun a t => Reads s (nodes a) t ∧ (s.rest ≠ [] → t.rest.length < s.rest.length) := by
  unfold progressing
  rw [ends_bind]
  change Ends s.rest (p >>= _) s _
  rw [ends_bind]
  refine (hp s hs).mono fun a t ht => ?_
  change Ends s.rest (skipIf (t.taken == s.taken) >>= fun _ => pure a) t _
  have htaken := ht.follows.taken
  have hle := ht.follows.length_le
  by_cases h : t.taken == s.taken
  · simp only [skipIf,h,if_true]
    rw [ends_bind]
    refine ⟨?_,fun hrest => ?_⟩
    · exact (ht.append (.token t)).congr (by simp) rfl
    · have hlength : t.rest.length = s.rest.length := by
        rw [beq_iff_eq] at h
        omega
      have htrest : t.rest ≠ [] := by
        intro hnil
        simp only [hnil,List.length_nil] at hlength
        exact hrest (List.length_eq_zero_iff.mp hlength.symm)
      have := State.length_advance_lt htrest
      omega
  · simp only [skipIf,h,Bool.false_eq_true,if_false]
    rw [ends_bind]
    refine ⟨ht,fun _ => ?_⟩
    rw [beq_iff_eq] at h
    omega

lemma reading_progressing (hp : Reading m p) : Reading m (progressing p) :=
  fun _ hs => (progressing_takes hp hs).mono fun _ _ h => h.1

end Progressing

/-- A round that began in `s` has taken a token if another follows. -/
def Advance (s : State) (r : Round α) (t : State) : Prop := r.more → t.rest.length < s.rest.length

/-- Every round takes a token or is the last. -/
def Advances (m : Nat) (round : Parser (Round α)) : Prop :=
  ∀ s, s.Within m → Ends s.rest round s (Advance s)

section Rounds

variable [Bears α] {round : Parser (Round α)} {part : Parser (List α)} {stops : Token → Bool}

omit [Bears α] in
/-- A loop whose rounds advance has enough rounds. What holds of each round and of rounds put together
holds of the loop. -/
lemma ends_collectWithin {post : State → List α → State → Prop}
    (happend : ∀ s t u xs ys, post s xs t → post t ys u → post s (xs ++ ys) u)
    (hfollows : ∀ s xs t, post s xs t → s.Follows t)
    (hr : ∀ s, s.Within m → Ends s.rest round s fun r t => post s r.items t) (ha : Advances m round)
    (rounds : Nat) (hs : s.Within m) (hrounds : s.rest.length < rounds) :
    Ends s.rest (collectWithin round rounds) s (post s) := by
  induction rounds generalizing s with
  | zero => omega
  | succ rounds ih =>
    unfold collectWithin
    refine ((hr s hs).and (ha s hs)).bind fun r t ht => ?_
    obtain ⟨hitems,hless⟩ := ht
    have hfollow := hfollows _ _ _ hitems
    split
    · rename_i hmore
      have hlater := ih (hfollow.within hs) (by have := hless hmore; omega)
      exact (hlater.of_suffix hfollow.rest).bind fun later u hu => happend _ _ _ _ _ hitems hu
    · exact hitems

omit [Bears α] in
lemma ends_collect (post : State → List α → State → Prop)
    (happend : ∀ s t u xs ys, post s xs t → post t ys u → post s (xs ++ ys) u)
    (hfollows : ∀ s xs t, post s xs t → s.Follows t)
    (hr : ∀ s, s.Within m → Ends s.rest round s fun r t => post s r.items t) (ha : Advances m round)
    (hs : s.Within m) : Ends s.rest (collect round) s (post s) :=
  ends_collectWithin happend hfollows hr ha (s.rest.length + 1) hs (by omega)

lemma reading_collect (hr : Reading m round) (ha : Advances m round) : Reading m (collect round) := by
  refine fun s hs => ends_collect (fun s xs t => Reads s (nodes xs) t) ?_ ?_ ?_ ha hs
  · exact fun _ _ _ _ _ h h' => (h.append h').congr (nodes_append _ _).symm rfl
  · exact fun _ _ _ h => h.follows
  · exact fun s hs => (hr s hs).mono fun r t ht => ht

lemma reading_roundUntil (hr : Reading m round) : Reading m (roundUntil stops round) :=
  reading_of_resumes fun _ => reading_peek.resumes_bind fun _ =>
    resumes_ite (fun _ => resumes_pure rfl) fun _ => hr.resumes

omit [Bears α] in
/-- A guarded round need not advance where the loop is left. -/
lemma advances_roundUntil
    (ha : ∀ s, s.Within m → s.rest ≠ [] → Ends s.rest round s (Advance s)) :
    Advances m (roundUntil stops round) := by
  intro s hs
  change Ends s.rest (if stops s.peek || s.peek.kind == .eof then pure ⟨[], false⟩ else round) s _
  split
  · exact fun h => absurd h Bool.false_ne_true
  · rename_i h
    simp only [Bool.or_eq_true,beq_iff_eq,not_or] at h
    exact ha s hs (State.rest_ne_nil hs.eof h.2)

lemma reading_collectUntil (hr : Reading m round)
    (ha : ∀ s, s.Within m → s.rest ≠ [] → Ends s.rest round s (Advance s)) :
    Reading m (collectUntil stops round) :=
  reading_collect (reading_roundUntil hr) (advances_roundUntil ha)

/-- A round that starts with a test: if it takes a token, what follows has advanced. -/
lemma advance_eat {test : Token → Bool} {p q : Parser (Round α)} (hs : s.Within m)
    (htest : ∀ t, test t → t.kind ≠ .eof) (hp : Resumes m s [] p nodes)
    (hq : Ends s.rest q s (Advance s)) :
    Ends s.rest (do if ← eat test then p else q) s (Advance s) := by
  refine ends_eat (fun h => ?_) fun _ => hq
  refine (hp hs s.advance (.token s)).mono fun r t ht _ => ?_
  exact Nat.lt_of_le_of_lt ht.2.length_le (hs.advance_lt (htest _ h))

omit [Bears α] in
lemma advance_stop {tokens : List Token} :
    Ends tokens (pure ⟨[], false⟩ : Parser (Round α)) t (Advance s) :=
  fun h => absurd h Bool.false_ne_true

lemma reading_one {p : Parser α} (hp : Reading m p) : Reading m (one p) :=
  reading_of_resumes fun _ => hp.resumes_bind fun _ => resumes_pure (by simp)

lemma reading_everyRound (hp : Reading m part) : Reading m (everyRound part) :=
  reading_of_resumes fun _ => (reading_progressing hp).resumes_bind fun _ => resumes_pure (by simp)

lemma everyRound_takes (hp : Reading m part) (hs : s.Within m) (hrest : s.rest ≠ []) :
    Ends s.rest (everyRound part) s (Advance s) := by
  unfold everyRound
  rw [ends_bind]
  exact (progressing_takes hp hs).mono fun _ _ h _ => h.2 hrest

lemma reading_commaRound (hp : Reading m part) : Reading m (commaRound part) :=
  reading_of_resumes fun _ => (reading_progressing hp).resumes_bind fun _ =>
    (reading_eatPunct ",").resumes_bind fun _ => resumes_pure (by simp)

lemma commaRound_takes (hp : Reading m part) (hs : s.Within m) :
    Ends s.rest (commaRound part) s (Advance s) := by
  unfold commaRound
  rw [ends_bind]
  refine (progressing_takes hp hs).mono fun items t ht => ?_
  refine ends_eat (fun h _ => ?_) fun _ h => absurd h Bool.false_ne_true
  have hlt := (ht.1.follows.within hs).advance_lt (kind_ne_eof_of_isPunct _ h)
  exact Nat.lt_of_lt_of_le hlt ht.1.follows.length_le

lemma reading_commaSeparated (close : String) (hp : Reading m part) :
    Reading m (commaSeparated close part) :=
  reading_collectUntil (reading_commaRound hp) fun _ hs _ => commaRound_takes hp hs

end Rounds

/-- A loop of steps is left if each step takes a token or is the last, except where the loop is known to
end well with any number of rounds. -/
lemma ends_iterateWithin {tokens : List Token} {step : α → Parser (Option α)}
    {inv post : α → State → Prop}
    (h : ∀ a t, inv a t → (∀ rounds, Ends tokens (iterateWithin step rounds a) t post) ∨
      Ends tokens (step a) t fun next u => match next with
        | some b => inv b u ∧ u.rest.length < t.rest.length
        | none => post a u)
    (rounds : Nat) (a : α) (ha : inv a t) (hrounds : t.rest.length < rounds) :
    Ends tokens (iterateWithin step rounds a) t post := by
  induction rounds generalizing a t with
  | zero => omega
  | succ rounds ih =>
    obtain hall | hstep := h a t ha
    · exact hall _
    · unfold iterateWithin
      rw [ends_bind]
      refine hstep.mono fun next u hu => ?_
      cases next with
      | none => exact hu
      | some b => exact ih b hu.1 (by have := hu.2; omega)

/-- A step of a loop extends what has been read from `s`, or leaves it. If it goes on, it has taken a
token. -/
def Extended (s t : State) (f : α → List Node) (a : α) (next : Option α) (u : State) : Prop :=
  Reads s (f (next.getD a)) u ∧ u.rest <:+ t.rest ∧ (next.isSome → u.rest.length < t.rest.length)

lemma extended_none {f : α → List Node} {a : α} (h : Reads s (f a) t) : Extended s t f a none t :=
  ⟨h,List.suffix_rfl,fun h => absurd h Bool.false_ne_true⟩

/-- A loop of steps that extend what has been read. -/
lemma resumes_iterate {step : α → Parser (Option α)} {f : α → List Node} {a : α}
    (h : s.Within m → ∀ a t, Reads s (f a) t →
      (∀ rounds, Ends s.rest (iterateWithin step rounds a) t fun b u =>
        Reads s (f b) u ∧ u.rest <:+ t.rest) ∨
      Ends s.rest (step a) t (Extended s t f a)) :
    Resumes m s (f a) (iterate step a) f := by
  intro hs t ht
  let inv (a : α) (v : State) : Prop := Reads s (f a) v ∧ v.rest <:+ t.rest
  have ha : inv a t := ⟨ht,List.suffix_rfl⟩
  refine ends_iterateWithin ?_ (t.rest.length + 1) a ha (by omega)
  intro a v hv
  refine (h hs a v hv.1).imp (fun hall rounds => ?_) fun hstep => ?_
  · exact (hall rounds).mono fun b u hu => ⟨hu.1,hu.2.trans hv.2⟩
  · refine hstep.mono fun next u hu => ?_
    cases next with
    | none => exact ⟨hu.1,hu.2.1.trans hv.2⟩
    | some b => exact ⟨⟨hu.1,hu.2.1.trans hv.2⟩,hu.2.2 rfl⟩

end QmlCodeModel.Grammar
