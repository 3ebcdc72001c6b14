import QmlCodeModel.Proofs.Grammar.Name

/-! What parts of the grammar answer, whatever nodes they read. Where the tokens to come are among some given
ones, so are the names that are taken. -/
namespace QmlCodeModel.Grammar

section

variable {α β : Type} {m : Nat} {tokens : List Token} {p : Parser α} {k : α → Parser β} {Q Q' : α → Prop}
  {R : β → Prop}

/-- Where the tokens to come are among these, an answer of a part has a property. -/
def Answers (m : Nat) (tokens : List Token) (p : Parser α) (Q : α → Prop) : Prop :=
  ∀ s : State, s.Within m → s.rest ⊆ tokens → ∀ a t, p s = .ok (a, t) →
    t.Within m ∧ t.rest ⊆ tokens ∧ Q a

lemma Answers.bind (h : Answers m tokens p Q) (hk : ∀ a, Q a → Answers m tokens (k a) R) :
    Answers m tokens (p >>= k) R := by
  intro s hs hsub b u hu
  obtain ⟨a,t,ht,hu⟩ := bind_eq_ok hu
  obtain ⟨hwithin,hrest,ha⟩ := h s hs hsub a t ht
  exact hk a ha t hwithin hrest b u hu

lemma Reading.answers [Bears α] (h : Reading m p) : Answers m tokens p fun _ => True := by
  intro s hs hsub a t ht
  have hfollows := ((h s hs).of_ok ht).follows
  exact ⟨hfollows.within hs,fun x hx => hsub (hfollows.rest.subset hx),trivial⟩

/-- A part whose answer does not matter. -/
lemma Reading.answers_bind [Bears α] (h : Reading m p) (hk : ∀ a, Answers m tokens (k a) R) :
    Answers m tokens (p >>= k) R :=
  h.answers.bind fun a _ => hk a

lemma answers_pure {a : α} (h : Q a) : Answers m tokens (pure a) Q := by
  rintro s hs hsub b t ⟨⟩
  exact ⟨hs,hsub,h⟩

lemma answers_ite {c : Prop} [Decidable c] {q : Parser α} (hp : c → Answers m tokens p Q)
    (hq : ¬c → Answers m tokens q Q) : Answers m tokens (if c then p else q) Q := by
  split
  · exact hp ‹_›
  · exact hq ‹_›

lemma answers_start {k : Nat → Parser β} (h : ∀ start, Answers m tokens (k start) R) :
    Answers m tokens (start >>= k) R := fun s => h s.front s

lemma answers_finish {kind : Kind Node} {start : Nat} {Q : Node → Prop} (h : ∀ n : Node, n.kind = kind → Q n) :
    Answers m tokens (finish kind start) Q := by
  rintro s hs hsub n t ⟨⟩
  exact ⟨⟨⟨hs.eof,hs.ordered,hs.texts⟩,hs.budget⟩,hsub,h _ rfl⟩

lemma Answers.withIn (allowed : Bool) (h : Answers m tokens p Q) : Answers m tokens (withIn allowed p) Q := by
  intro s hs hsub a t ht
  obtain ⟨_,_,⟨⟩,ht⟩ := bind_eq_ok ht
  obtain ⟨_,_,⟨⟩,ht⟩ := bind_eq_ok ht
  obtain ⟨b,u,hu,⟨⟩⟩ := bind_eq_ok ht
  obtain ⟨hwithin,hrest,ha⟩ :=
    h (s.inContext allowed s.inAsync s.inGenerator) ⟨⟨hs.eof,hs.ordered,hs.texts⟩,hs.budget⟩ hsub a u hu
  exact ⟨⟨⟨hwithin.eof,hwithin.ordered,hwithin.texts⟩,hwithin.budget⟩,hrest,ha⟩

/-! Loops. -/

variable {round : Parser (Round α)} {part : Parser (List α)}

lemma answers_collect (h : Answers m tokens round fun r => ∀ x ∈ r.items, Q x) :
    Answers m tokens (collect round) fun l => ∀ x ∈ l, Q x := by
  intro s
  change s.Within m → s.rest ⊆ tokens → ∀ a t, collectWithin round (s.rest.length + 1) s = .ok (a,t) → _
  generalize s.rest.length + 1 = rounds
  suffices h : Answers m tokens (collectWithin round rounds) fun l => ∀ x ∈ l, Q x from h s
  induction rounds with
  | zero =>
    intro _ _ _ _ _ ht
    cases ht
  | succ rounds ih =>
    refine h.bind fun r hr => answers_ite (fun _ => ?_) fun _ => answers_pure hr
    refine ih.bind fun later hlater => answers_pure fun x hx => ?_
    exact (List.mem_append.mp hx).elim (hr x) (hlater x)

lemma answers_progressing (h : Answers m tokens p Q) : Answers m tokens (progressing p) Q :=
  reading_taken.answers_bind fun _ => h.bind fun _ ha => reading_taken.answers_bind fun _ =>
    (reading_skipIf _).answers_bind fun _ => answers_pure ha

lemma answers_commaSeparated {close : String} (h : Answers m tokens part fun l => ∀ x ∈ l, Q x) :
    Answers m tokens (commaSeparated close part) fun l => ∀ x ∈ l, Q x := by
  refine answers_collect (reading_peek.answers_bind fun _ => answers_ite (fun _ => ?_) fun _ => ?_)
  · exact answers_pure nofun
  · exact (answers_progressing h).bind fun _ hitems => (reading_eatPunct ",").answers_bind fun _ =>
      answers_pure hitems

/-- What is known of an answer, beside what was read for it. -/
lemma Answers.ends {s : State} {rest : List Token} {post : α → State → Prop} (ha : Answers m tokens p Q)
    (hs : s.Within m) (hsub : s.rest ⊆ tokens) (h : Ends rest p s post) :
    Ends rest p s fun a t => post a t ∧ Q a := by
  unfold Ends at h ⊢
  split
  · rename_i hcase
    rw [hcase] at h
    exact ⟨h,(ha s hs hsub _ _ hcase).2.2⟩
  · rename_i hcase
    rwa [hcase] at h

/-- What is known of an answer may be used by what goes on with it. -/
lemma Answers.resumes_bind [Bears α] {s : State} {xs : List Node} {f : β → List Node}
    (ha : Answers m s.rest p Q) (h : Reading m p) (hk : ∀ a, Q a → Resumes m s (xs ++ nodes a) (k a) f) :
    Resumes m s xs (p >>= k) f := by
  intro hs t ht
  have hwithin := ht.follows.within hs
  have ha := ha.ends hwithin ht.follows.rest.subset ((h t hwithin).of_suffix ht.follows.rest)
  refine ha.bind fun a u hu => ?_
  refine (hk a hu.2 hs u (ht.append hu.1)).mono fun _ _ hv => ?_
  exact ⟨hv.1,hv.2.trans hu.1.follows.rest⟩

end

/-! Names. -/

section

variable {m : Nat} {tokens : List Token} {s t : State} {xs : List Node}

/-- The token that comes next, as a name. -/
lemma from_identOf (hne : s.rest ≠ []) (hsub : s.rest ⊆ tokens) : (identOf s.peek).From tokens :=
  ⟨s.peek,hsub (State.peek_mem hne),rfl⟩

lemma answers_identifier : Answers m tokens identifier fun name => ∀ i ∈ name, i.From tokens := by
  intro s hs hsub
  change ∀ a t, (if s.peek.kind == .name then _ else _ : Parser (Option Ident)) s = .ok (a,t) → _
  split
  · rename_i hname
    rw [beq_iff_eq] at hname
    rintro a t ⟨⟩
    have hne := State.rest_ne_nil hs.eof (by simp [hname])
    have hfollows := s.follows_advance
    refine ⟨hfollows.within hs,fun x hx => hsub (hfollows.rest.subset hx),?_⟩
    rintro i ⟨⟩
    exact from_identOf hne hsub
  · rintro a t ⟨⟩
    exact ⟨(s.follows_report _ _).within hs,by rwa [s.rest_report],nofun⟩

lemma answers_bindingIdentifier : Answers m tokens bindingIdentifier fun name => ∀ i ∈ name, i.From tokens := by
  refine reading_peek.answers_bind fun _ => answers_ite (fun _ => answers_identifier) fun _ => ?_
  exact (reading_reportHere _).answers_bind fun _ => answers_pure nofun

lemma answers_declaredName (required : Bool) (isName : Token → Bool) (missing : GrammarFault) :
    Answers m tokens (declaredName required isName missing) fun name => ∀ i ∈ name, i.From tokens := by
  refine reading_peek.answers_bind fun _ => answers_ite (fun _ => answers_bindingIdentifier) fun _ => ?_
  exact (reading_reportIf _ _).answers_bind fun _ => answers_pure nofun

/-- The token that comes next has been taken, and a node is made for the name that it is. -/
lemma Reads.identifier (hs : s.Ordered) (hne : s.rest ≠ []) :
    Reads s [(s.advance.make (s.advance.spanFrom s.front) (.identifier s.peek.text)).1]
      (s.advance.make (s.advance.spanFrom s.front) (.identifier s.peek.text)).2 := by
  have hspan : s.advance.spanFrom s.front = s.peek.span := by
    rw [State.spanFrom_of_le (Nat.le_of_lt (State.front_lt_advance hs hne)),State.previousStop_advance hne]
    rfl
  refine .layer _ _ (.token s) (.nothing s.advance) rfl trivial ⟨trivial,nofun,?_,nofun⟩
  rintro name ⟨⟩
  rw [hspan]
  exact from_identOf hne fun _ => id

/-- A layer around what was read behind a token is headed by the token. -/
lemma Reads.heads (h : Reads s.advance xs t) (hs : s.Ordered) (hne : s.rest ≠ []) :
    (t.spanFrom s.front).Heads xs := by
  have hordered := (s.follows_advance.order hs).1
  have htaken := State.front_lt_advance hs hne
  have hfront := hordered.previousStop_le_front
  obtain ⟨-,hstop,-⟩ := h.follows.order hordered
  refine ⟨?_,fun c hc => ?_⟩
  · change s.front < max t.previousStop s.front
    omega
  · have hstart := (h.row hordered).start c hc
    change s.front < c.span.start
    omega

end

end QmlCodeModel.Grammar
