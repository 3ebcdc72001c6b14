import QmlCodeModel.Proofs.Grammar.Answer

/-! Expressions in a row, arguments and the tails of operands are readings. The tail is the one loop with
a round that goes on without a token: at a template, where no goal can be nested deeper. -/
namespace QmlCodeModel.Grammar

section

variable {m : Nat} {go : Reader} {s t : State} {xs : List Node} (hgo : Obeys m go)
include hgo

lemma reading_statement : Reading m (statement go) := reading_nested hgo .statement
lemma reading_assignment : Reading m (assignment go) := reading_nested hgo .assignment
lemma reading_primary : Reading m (primary go) := reading_nested hgo .primary
lemma reading_initializer : Reading m (initializer go) := reading_nested hgo .initializer

lemma reading_nextExpression : Reading m (nextExpression go) := by
  refine reading_of_resumes fun s => (reading_eatPunct ",").resumes_bind fun _ => ?_
  refine resumes_ite (fun _ => ?_) fun _ => resumes_pure rfl
  exact (reading_assignment hgo).resumes_bind fun _ => resumes_pure (by simp)

lemma nextExpression_advances : Advances m (nextExpression go) := by
  intro s hs
  refine advance_eat hs kind_ne_eof_of_isPunct ?_ advance_stop
  exact (reading_assignment hgo).resumes_bind fun _ => resumes_pure (by simp)

lemma reading_expression : Reading m (expression go) := by
  refine reading_start fun s => (reading_assignment hgo).resumes_bind fun first => ?_
  refine (reading_atPunct ",").resumes_bind fun _ => resumes_ite (fun _ => ?_) fun _ => ?_
  · have hlater := reading_collect (reading_nextExpression hgo) (nextExpression_advances hgo)
    exact hlater.resumes_bind fun later => resumes_finish (by simp [Kind.children]) rfl
  · exact resumes_pure (by simp)

lemma reading_expressionWithIn : Reading m (expressionWithIn go) :=
  reading_withIn true (reading_expression hgo)

lemma reading_parenthesized : Reading m (parenthesized go) := by
  refine reading_of_resumes fun s => (reading_punct "(").resumes_bind fun _ => ?_
  refine (reading_expressionWithIn hgo).resumes_bind fun inner => ?_
  exact (reading_punct ")").resumes_bind fun _ => resumes_pure (by simp)

lemma reading_spreadOrAssignment : Reading m (spreadOrAssignment go) := by
  refine reading_start fun s => (reading_eatPunct "...").resumes_bind fun _ => ?_
  refine resumes_ite (fun _ => ?_) fun _ => (reading_assignment hgo).resumes.congr (by simp)
  exact (reading_assignment hgo).resumes_bind fun argument => resumes_finish (by simp [Kind.children]) rfl

/-- What follows the opening parenthesis of arguments. -/
lemma resumes_argumentItems : Resumes m s xs (do
    let items ← withIn true (commaSeparated ")" (one (spreadOrAssignment go)))
    discard (expectPunct ")")
    pure items) fun items => xs ++ nodes items := by
  have hitems := reading_commaSeparated ")" (reading_one (reading_spreadOrAssignment hgo))
  refine (reading_withIn true hitems).resumes_bind fun items => ?_
  exact (reading_punct ")").resumes_bind fun _ => resumes_pure (by simp)

lemma takes_arguments : Takes m s xs (arguments go) fun items => xs ++ nodes items :=
  takes_skip (resumes_argumentItems hgo)

lemma reading_arguments : Reading m (arguments go) :=
  reading_of_resumes fun _ => reading_skip.resumes_bind fun _ => resumes_argumentItems hgo

omit hgo in
lemma resumes_memberOf (object : Node) (optional : Bool) :
    Resumes m s [object] (memberOf s.front object optional) fun r => [r.getD object] := by
  refine reading_identifier.resumes_bind fun property => ?_
  cases property with
  | none => exact resumes_pure (by simp)
  | some property =>
    exact resumes_map ((resumes_finish (by simp [Kind.children]) rfl).congr fun _ => rfl)

lemma resumes_indexOf (object : Node) (optional : Bool) :
    Resumes m s [object] (indexOf go s.front object optional) fun r => [r.getD object] := by
  refine (reading_expressionWithIn hgo).resumes_bind fun index => ?_
  refine (reading_punct "]").resumes_bind fun _ => ?_
  exact resumes_map ((resumes_finish (by simp [Kind.children]) rfl).congr fun _ => rfl)

lemma takes_callOf (callee : Node) (optional : Bool) :
    Takes m s [callee] (callOf go s.front callee optional) fun r => [r.getD callee] := by
  refine takes_bind (takes_arguments hgo) fun items => ?_
  exact resumes_map ((resumes_finish (by simp [Kind.children]) rfl).congr fun _ => rfl)

/-- What follows the punctuator of an optional member, index or call. -/
lemma resumes_optionalTail (operand : Node) : Resumes m s [operand] (do
    if ← atPunct "(" then callOf go s.front operand true
    else if ← eatPunct "[" then indexOf go s.front operand true
    else memberOf s.front operand true) fun r => [r.getD operand] := by
  refine (reading_atPunct "(").resumes_bind fun _ => resumes_ite (fun _ => ?_) fun _ => ?_
  · refine (reading_arguments hgo).resumes_bind fun items => ?_
    exact resumes_map ((resumes_finish (by simp [Kind.children]) rfl).congr fun _ => rfl)
  refine (reading_eatPunct "[").resumes_bind fun _ => resumes_ite (fun _ => ?_) fun _ => ?_
  · simpa using resumes_indexOf hgo operand true
  · simpa using resumes_memberOf operand true

/-- Where goals can be nested deeper, a template is read as a token at least. -/
lemma primary_takes_template (ht : t.Within m) (hkind : t.peek.kind = .template)
    (hdepth : ¬maxNesting ≤ t.depth) : Ends t.rest (primary go) t fun n u =>
      Reads t [n] u ∧ u.rest.length < t.rest.length := by
  refine (reading_primary hgo t ht).and ?_
  unfold primary nested
  rw [ends_get,if_neg hdepth,ends_modify,ends_bind]
  have hready : { t with depth := t.depth + 1 }.Ready := ⟨ht.eof,ht.ordered,ht.texts⟩
  have h := hgo.template _ hready (State.budget_deeper ht hdepth) hkind
  exact h.mono fun n u hu => hu

/-- A round of a tail that goes on has taken a token, except in a stalled state. -/
lemma ends_extendOperand (allowCalls : Bool) {operand : Node} (hs : s.Within m)
    (ht : Reads s [operand] t) (hstalled : ¬t.Stalled) :
    Ends s.rest (extendOperand go s.front allowCalls operand) t
      (Extended s t (fun n => [n]) operand) := by
  have taking {p : Parser (Option Node)} (hp : Takes m s [operand] p fun r => [r.getD operand])
      (hkind : t.peek.kind ≠ .eof) : Ends s.rest p t (Extended s t (fun n => [n]) operand) :=
    (hp hs t ht hkind).mono fun _ _ hu => ⟨hu.1,hu.2.1,fun _ => hu.2.2⟩
  unfold extendOperand
  rw [ends_peek]
  split
  · rename_i h
    exact taking (takes_skip (resumes_memberOf operand false)) (kind_ne_eof_of_isPunct _ h)
  split
  · rename_i h
    simp only [Bool.and_eq_true] at h
    exact taking (takes_skip (resumes_optionalTail hgo operand)) (kind_ne_eof_of_isPunct _ h.1)
  split
  · rename_i h
    exact taking (takes_skip (resumes_indexOf hgo operand false)) (kind_ne_eof_of_isPunct _ h)
  split
  · rename_i h
    simp only [Bool.and_eq_true] at h
    exact taking (takes_callOf hgo operand false) (kind_ne_eof_of_isPunct _ h.1)
  split
  · rename_i h
    rw [beq_iff_eq] at h
    have hwithin := ht.follows.within hs
    have hquasi := primary_takes_template hgo hwithin h fun hdepth => hstalled ⟨h,hdepth⟩
    rw [ends_bind]
    refine (hquasi.of_suffix ht.follows.rest).mono fun quasi u hu => ?_
    have hfinish : Resumes m s _ (finish (.taggedTemplate operand quasi) s.front) nodes :=
      resumes_finish rfl rfl
    rw [ends_map]
    refine (hfinish hs u (ht.append hu.1)).mono fun n v hv => ?_
    exact ⟨hv.1,hv.2.trans hu.1.follows.rest,fun _ => Nat.lt_of_le_of_lt hv.2.length_le hu.2⟩
  · exact extended_none ht

omit hgo in
variable (go) in
/-- In a stalled state a template is read as an error node, without a token. -/
lemma primary_of_stalled (h : t.Stalled) :
    ∃ n u, primary go t = .ok (n, u) ∧ u.Stalled ∧ u.rest = t.rest := by
  let r := t.report t.front .tooDeep
  have hrest : r.rest = t.rest := t.rest_report t.front .tooDeep
  refine ⟨(r.make ⟨r.front, r.front⟩ .error).1,(r.make ⟨r.front, r.front⟩ .error).2,?_,⟨?_,?_⟩,hrest⟩
  · unfold primary nested
    change (if maxNesting ≤ t.depth then _ else _ : Parser Node) t = _
    rw [if_pos h.2]
    rfl
  · change (r.rest.headD r.eof).kind = .template
    rw [hrest,(t.follows_report t.front .tooDeep).eof]
    exact h.1
  · change maxNesting ≤ r.depth
    rw [(t.follows_report t.front .tooDeep).depth]
    exact h.2

omit hgo in
variable (go) in
/-- A round of a tail in a stalled state goes on in a stalled state, before the same token. -/
theorem extendOperand_of_stalled (start : Nat) (allowCalls : Bool) (operand : Node) (h : t.Stalled) :
    ∃ next u, extendOperand go start allowCalls operand t = .ok (some next, u) ∧ u.Stalled ∧
      u.rest = t.rest := by
  have hpunct (text : String) : t.peek.isPunct text = false := by simp [Token.isPunct,h.1]
  obtain ⟨quasi,u,hu,hstalled,hrest⟩ := primary_of_stalled go h
  let made := u.make (u.spanFrom start) (.taggedTemplate operand quasi)
  refine ⟨made.1,made.2,?_,hstalled,hrest⟩
  unfold extendOperand
  change (if t.peek.isPunct "." then _ else _ : Parser (Option Node)) t = _
  simp only [hpunct,Bool.false_and,Bool.false_eq_true,if_false,h.1,beq_self_eq_true,if_true]
  simp only [bind,StateT.bind,Except.bind,hu]
  rfl

omit hgo in
variable (go) in
/-- The tail of an operand is never left in a stalled state, however many rounds it is given. -/
theorem iterateWithin_extendOperand_of_stalled (start : Nat) (allowCalls : Bool) (rounds : Nat)
    (operand : Node) (h : t.Stalled) :
    ∃ e, iterateWithin (extendOperand go start allowCalls) rounds operand t = .error e ∧ e.Stalled ∧
      e.rest = t.rest := by
  induction rounds generalizing operand t with
  | zero => exact ⟨t,rfl,h,rfl⟩
  | succ rounds ih =>
    obtain ⟨next,u,hu,hstalled,hrest⟩ := extendOperand_of_stalled go start allowCalls operand h
    obtain ⟨e,he,hestalled,herest⟩ := ih next hstalled
    refine ⟨e,?_,hestalled,herest.trans hrest⟩
    unfold iterateWithin
    simp only [bind,StateT.bind,Except.bind,hu,he]

lemma resumes_operandTail (allowCalls : Bool) (operand : Node) :
    Resumes m s [operand] (operandTail go s.front allowCalls operand) nodes := by
  refine resumes_iterate (f := fun n => [n]) fun hs a t ht => ?_
  by_cases h : t.Stalled
  · left
    intro rounds
    obtain ⟨e,he,hstalled,hrest⟩ :=
      iterateWithin_extendOperand_of_stalled go s.front allowCalls rounds a h
    have hnext : e.peek ∈ t.rest := by
      have hkind : t.peek.kind ≠ .eof := by simp [h.1]
      have hne := State.rest_ne_nil (ht.follows.within hs).eof hkind
      obtain ⟨token,rest,htokens⟩ := List.exists_cons_of_ne_nil hne
      simp [State.peek,hrest,htokens]
    unfold Ends
    rw [he]
    exact ⟨hstalled,ht.follows.rest.subset hnext⟩
  · right
    exact ends_extendOperand hgo allowCalls hs ht h

lemma reading_operandHead : Reading m (operandHead go) := by
  refine reading_of_resumes fun s => (reading_atName "new").resumes_bind fun _ => ?_
  refine resumes_ite (fun _ => ?_) fun _ => ?_
  · exact (reading_nested hgo .newExpression).resumes.congr (by simp)
  · exact (reading_primary hgo).resumes.congr (by simp)

/-- An operand, with or without calls in its tail. -/
lemma reading_headAndTail (allowCalls : Bool) : Reading m (do
    let start ← start
    let head ← operandHead go
    operandTail go start allowCalls head) := by
  refine reading_start fun s => (reading_operandHead hgo).resumes_bind fun head => ?_
  exact resumes_operandTail hgo allowCalls head

lemma reading_operand : Reading m (operand go) := reading_headAndTail hgo true
lemma reading_callee : Reading m (callee go) := reading_headAndTail hgo false

lemma reading_calleeArguments : Reading m (calleeArguments go) := by
  refine reading_of_resumes fun s => (reading_atPunct "(").resumes_bind fun _ => ?_
  exact resumes_ite (fun _ => (reading_arguments hgo).resumes.congr (by simp)) fun _ => resumes_pure rfl

omit hgo in
/-- The word has been taken, and the dot comes next. -/
lemma ends_metaProperty (hs : s.Within m) (h : s.advance.peek.isPunct ".") :
    Ends s.rest (metaProperty s.front s.peek.text) s.advance fun n t => Reads s [n] t := by
  have hnext := State.rest_ne_nil (s.follows_advance.within hs).eof (kind_ne_eof_of_isPunct _ h)
  have hne := State.rest_ne_nil_of_advance hnext
  have htail (owner : Node) : Resumes m s [owner] (do
      discard bump
      return (← memberOf s.front owner false).getD owner) nodes := by
    refine reading_skip.resumes_bind fun _ => resumes_bind ?_ fun _ => resumes_pure rfl
    simpa using resumes_memberOf owner false
  exact (htail _ hs _ (.identifier hs.ordered hne)).mono fun n t ht => ht.1

lemma reading_readNew : Reading m (readNew go) := by
  intro s hs
  have hcall : Resumes m s [] (do
      let callee ← callee go
      let items ← calleeArguments go
      finish (.new callee items) s.front) nodes := by
    refine (reading_callee hgo).resumes_bind fun callee => ?_
    refine (reading_calleeArguments hgo).resumes_bind fun items => ?_
    exact resumes_finish (by simp [Kind.children]) rfl
  change Ends s.rest (if s.advance.peek.isPunct "." then _ else _) s.advance _
  split
  · exact ends_metaProperty hs ‹_›
  · exact (hcall hs s.advance (.token s)).mono fun n t ht => ht.1

end

end QmlCodeModel.Grammar
