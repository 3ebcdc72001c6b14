import QmlCodeModel.Proofs.Grammar.Clean.Source
import QmlCodeModel.Proofs.Grammar.Embedding.Expression
import QmlCodeModel.Proofs.Grammar.Plain
import QmlCodeModel.Proofs.Token.Behind

/-! Statements carry over into another source, and so a source of one statement is read as the statement of a
condition or of a loop. -/
namespace QmlCodeModel.Grammar

section

variable {e : Embedding} {around : Nat} {stack : List Bracket} {s : State} {go go' : Reader}

/-! Words. -/

lemma carries_variableKind (h : s.peek.kind = .name) :
    Carries e stack True variableKind variableKind holdsNone stack s :=
  carries_bump (.of_name h) fun _ => carries_pure rfl fun _ => trivial

lemma carries_loopWord : Carries e stack True loopWord loopWord holdsNone stack s :=
  (carries_eatName "of").next fun _ _ => carries_ite (fun _ => carries_pure rfl fun _ => trivial) fun _ =>
    (carries_eatName "in").next fun _ _ => carries_ite (fun _ => carries_pure rfl fun _ => trivial) fun _ =>
      carries_pure rfl fun _ => trivial

lemma carries_jumpLabel : Carries e stack True jumpLabel jumpLabel holdsNone stack s :=
  carries_peek fun _ => carries_ite (fun _ => carries_identifier) fun _ => carries_pure rfl fun _ => trivial

lemma carries_jumpStatement {layer : Option Ident → Kind Node} (h : s.peek.Inner)
    (hlayer : ∀ label : Copy (Option Ident),
      (layer label.right).over Node.shape = (layer label.left).over Node.shape) :
    Carries e stack True (jumpStatement layer) (jumpStatement layer) (e.Holds around) stack s :=
  carries_start fun _ _ => carries_skip h (carries_jumpLabel.bind fun label _ =>
    carries_endStatement.next fun _ _ => carries_finish (hlayer label) fun _ _ => ⟨trivial,trivial⟩)

lemma carries_debuggerStatement (h : s.peek.Inner) :
    Carries e stack True debuggerStatement debuggerStatement (e.Holds around) stack s :=
  carries_start fun _ _ => carries_skip h (carries_endStatement.next fun _ _ =>
    carries_finish rfl fun _ _ => trivial)

variable (hgo : Carrying e.budget go go')
include hgo

lemma Carrying.expressionStatement (hd : e.Allows around stack 1) :
    Carries e stack True (expressionStatement go) (expressionStatement go') (e.Holds around) stack s :=
  carries_start fun _ _ => (hgo.expression hd).bind fun inner _ =>
    carries_finishStatement (by simp) fun h _ => ⟨trivial,h⟩

/-! Declarations of variables. -/

lemma Carrying.variableDeclaration (hd : e.Allows around stack 1) :
    Carries e stack True (variableDeclaration go) (variableDeclaration go') (e.Holds around) stack s := by
  refine carries_start fun o o' => (hgo.bindingTarget (hd.mono (Nat.le_succ _))).choose (fun target _ => ?_)
    fun _ => carries_pure rfl fun _ => ⟨trivial,by simp [Embedding.Holds]⟩
  refine (hgo.defaultValue hd).bind fun init t => ?_
  have hnode : Carries e stack (e.Holds around target.left ∧ e.Holds around init.left)
      (finish (.variableDeclaration target.left init.left) o)
      (finish (.variableDeclaration target.right init.right) o') (e.Holds around) stack t := by
    refine carries_finish (by simp) ?_
    simp +contextual [Embedding.Holds,nodes,Kind.children]
  refine (hnode.weaken (by simp +contextual)).goOn fun node _ => (carries_eatPunct (by decide)).next fun more _ => ?_
  exact carries_pure (congrArg (fun x => ([x], more)) node.same) fun h => by simpa [Embedding.Holds] using h

lemma Carrying.variableDeclarations (hd : e.Allows around stack 1) :
    Carries e stack True (variableDeclarations go) (variableDeclarations go') (e.Holds around) stack s :=
  Carries.collect fun _ => hgo.variableDeclaration hd

lemma Carrying.variableStatement (hd : e.Allows around stack 1) (h : s.peek.kind = .name) :
    Carries e stack True (variableStatement go) (variableStatement go') (e.Holds around) stack s := by
  refine carries_start fun _ _ => (carries_variableKind h).next fun kind _ => ?_
  refine (hgo.variableDeclarations hd).bind fun declarations _ => carries_endStatement.next fun _ _ => ?_
  refine carries_finish (by simp) ?_
  simp +contextual [Embedding.Holds,Kind.children]

/-! Conditions and loops. -/

lemma Carrying.ifStatement (hd : e.Allows around stack 1) (h : s.peek.Inner) :
    Carries e stack True (ifStatement go) (ifStatement go') (e.Holds around) stack s := by
  refine carries_start fun _ _ => carries_skip h ?_
  refine (hgo.parenthesized (hd.mono (by decide))).bind fun test _ => ?_
  refine (hgo.statement hd.inner).bind fun consequent _ => ?_
  refine (carries_optionally (carries_eatName "else") fun _ => hgo.statement hd.inner).bind fun alternate _ => ?_
  refine carries_finish (by simp) ?_
  simp +contextual [Embedding.Holds,Kind.children,Kind.deeper]

lemma Carrying.whileStatement (hd : e.Allows around stack 1) (h : s.peek.Inner) :
    Carries e stack True (whileStatement go) (whileStatement go') (e.Holds around) stack s := by
  refine carries_start fun _ _ => carries_skip h ?_
  refine (hgo.parenthesized (hd.mono (by decide))).bind fun test _ => (hgo.statement hd.inner).bind fun body _ => ?_
  refine carries_finish (by simp) ?_
  simp +contextual [Embedding.Holds,Kind.children,Kind.deeper]

lemma Carrying.doStatement (hd : e.Allows around stack 1) (h : s.peek.Inner) :
    Carries e stack True (doStatement go) (doStatement go') (e.Holds around) stack s := by
  refine carries_start fun _ _ => carries_skip h ((hgo.statement hd.inner).bind fun body _ => ?_)
  refine (carries_word "while").next fun _ _ => (hgo.parenthesized (hd.mono (by decide))).bind fun test _ => ?_
  refine (carries_eatPunct (by decide)).discard.next fun _ _ => carries_finish (by simp) ?_
  simp +contextual [Embedding.Holds,Kind.children,Kind.deeper]

lemma Carrying.loopStart (hd : e.Allows around stack 1) :
    Carries e stack True (loopStart go) (loopStart go') (e.Holds around) stack s := by
  refine carries_peek fun _ => carries_ite (fun _ => carries_pure rfl fun _ => trivial) fun _ =>
    carries_ahead fun _ => carries_ite (fun h => ?_) fun _ => ?_
  · refine carries_start fun _ _ => (carries_variableKind (kind_of_startsVariables h)).next fun kind t => ?_
    have hdeclarations : Carries e stack True (withIn false (Grammar.variableDeclarations go))
        (withIn false (Grammar.variableDeclarations go')) (e.Holds around) stack t :=
      Carries.withIn false (hgo.variableDeclarations hd)
    refine hdeclarations.bind fun declarations _ => Carries.map (f := some) ?_ fun n => congrArg some n.same
    simp only [Embedding.holds_some]
    refine carries_finish (by simp) ?_
    simp +contextual [Embedding.Holds,Kind.children]
  · refine Carries.map (f := some) ?_ fun n => congrArg some n.same
    simpa using Carries.withIn false (hgo.expression hd)

lemma Carrying.loopPart (hd : e.Allows around stack 1) (close : String) :
    Carries e stack True (loopPart go close) (loopPart go' close) (e.Holds around) stack s := by
  refine carries_atPunct (carries_ite (fun _ => carries_pure rfl fun _ => trivial) fun _ => ?_)
  refine Carries.map (f := some) ?_ fun n => congrArg some n.same
  simpa using hgo.expressionWithIn hd

/-- The opening parenthesis has been taken before. -/
lemma Carrying.forEach (hd : e.Allows around stack 1) (o o' : Nat) (kind : ForEachKind) (left : Copy Node) :
    Carries e (.round :: stack) (e.Holds around left.left) (forEach go o kind left.left)
      (forEach go' o' kind left.right) (e.Holds around) stack s := by
  have hin : e.Allows around (.round :: stack) 1 := (hd.mono (by decide : 1 ≤ 3)).enter .round
  refine carries_upTo .round (hgo.expressionWithIn hin) fun right _ => (hgo.statement hd.inner).bind fun body _ => ?_
  refine carries_finish (by simp) ?_
  simp +contextual [Embedding.Holds,Kind.children,Kind.deeper]

/-- The opening parenthesis has been taken before. -/
lemma Carrying.forLoop (hd : e.Allows around stack 1) (o o' : Nat) (init : Copy (Option Node)) :
    Carries e (.round :: stack) (e.Holds around init.left) (forLoop go o init.left) (forLoop go' o' init.right)
      (e.Holds around) stack s := by
  have hin : e.Allows around (.round :: stack) 1 := (hd.mono (by decide : 1 ≤ 3)).enter .round
  refine (carries_punct (by decide)).next fun _ _ => (hgo.loopPart hin ";").bind fun test _ => ?_
  refine (carries_punct (by decide)).next fun _ _ => carries_upTo .round (hgo.loopPart hin ")") fun update _ => ?_
  refine (hgo.statement hd.inner).bind fun body _ => carries_finish (by simp) ?_
  simp +contextual [Embedding.Holds,Kind.children,Kind.deeper]

lemma Carrying.forStatement (hd : e.Allows around stack 1) (h : s.peek.Inner) :
    Carries e stack True (forStatement go) (forStatement go') (e.Holds around) stack s := by
  have hin : e.Allows around (.round :: stack) 1 := (hd.mono (by decide : 1 ≤ 3)).enter .round
  refine carries_start fun o o' => carries_skip h ((carries_opening .round).next fun _ _ => ?_)
  refine (hgo.loopStart hin).choose (fun left _ => ?_) fun _ => ?_
  · refine carries_loopWord.choose (fun kind _ => ?_) fun _ => ?_
    · rw [kind.placeless]
      exact (hgo.forEach hd o o' kind.left left).weaken fun h => ⟨⟨trivial,by simpa using h⟩,trivial⟩
    · refine (hgo.forLoop hd o o' ⟨some left.left,some left.right,congrArg some left.same⟩).weaken fun h => ?_
      exact ⟨⟨trivial,h⟩,trivial⟩
  · exact (hgo.forLoop hd o o' (.self none)).weaken fun h => ⟨trivial,h⟩

/-! Jumps. -/

lemma Carrying.returnArgument (hd : e.Allows around stack 1) :
    Carries e stack True (returnArgument go) (returnArgument go') (e.Holds around) stack s := by
  refine carries_peek fun _ => carries_ite (fun _ => carries_pure rfl fun _ => trivial) fun _ => ?_
  refine Carries.map (f := some) ?_ fun n => congrArg some n.same
  simpa using hgo.expression hd

lemma Carrying.returnStatement (hd : e.Allows around stack 1) (h : s.peek.Inner) :
    Carries e stack True (returnStatement go) (returnStatement go') (e.Holds around) stack s := by
  refine carries_start fun _ _ => carries_skip h ((hgo.returnArgument hd).bind fun argument _ => ?_)
  refine carries_endStatement.next fun _ _ => carries_finish (by simp) ?_
  simp +contextual [Embedding.Holds,Kind.children]

lemma Carrying.throwStatement (hd : e.Allows around stack 1) (h : s.peek.Inner) :
    Carries e stack True (throwStatement go) (throwStatement go') (e.Holds around) stack s := by
  refine carries_start fun _ _ => carries_skip h (carries_peek fun _ => ?_)
  refine (carries_reportIf _ _).next fun _ _ => (hgo.expression hd).bind fun argument _ => ?_
  exact carries_endStatement.next fun _ _ => carries_finish (by simp) fun h _ => ⟨trivial,h⟩

/-! Switches and handlers of exceptions. -/

lemma Carrying.caseBody (hd : e.Allows around stack 1) (o o' : Nat) (test : Copy (Option Node)) :
    Carries e stack (e.Holds around test.left) (caseBody go o test.left) (caseBody go' o' test.right)
      (e.Holds around) stack s := by
  refine (carries_punct (by decide)).next fun _ _ => ?_
  refine (hgo.statementsUntil (fun _ _ => rfl) hd.inner).bind fun body t => ?_
  have hnode : Carries e stack (e.Holds around test.left ∧ e.Holds (around + 1) body.left)
      (finish (.case test.left body.left) o) (finish (.case test.right body.right) o') (e.Holds around) stack t := by
    refine carries_finish (by simp) ?_
    simp +contextual [Embedding.Holds,Kind.children,Kind.deeper]
  refine hnode.goOn fun node _ => carries_pure (congrArg (fun x => ([x], true)) node.same) fun h => ?_
  simpa [Embedding.Holds] using h

lemma Carrying.switchCase (hd : e.Allows around stack 1) :
    Carries e stack True (switchCase go) (switchCase go') (e.Holds around) stack s := by
  refine carries_start fun o o' => (carries_eatName "case").next fun _ _ => carries_ite (fun _ => ?_) fun _ =>
    (carries_eatName "default").next fun _ _ => carries_ite (fun _ => ?_) fun _ => ?_
  · refine Carries.goOn (hgo.expressionWithIn hd) fun test _ => ?_
    refine (hgo.caseBody hd o o' ⟨some test.left,some test.right,congrArg some test.same⟩).weaken fun h => ?_
    simpa using h
  · exact (hgo.caseBody hd o o' (.self none)).weaken fun _ => trivial
  · exact carries_reportHere (sticks_skip.bind fun _ => sticks_pure _)

lemma Carrying.switchStatement (hd : e.Allows around stack 1) (h : s.peek.Inner) :
    Carries e stack True (switchStatement go) (switchStatement go') (e.Holds around) stack s := by
  have hd : e.Allows around stack 3 := hd.mono (by decide)
  refine carries_start fun _ _ => carries_skip h ((hgo.parenthesized hd).bind fun discriminant _ => ?_)
  have hcases (t : State) : Carries e (.curly :: stack) True
      (collectUntil (·.isPunct "\x7d") (Grammar.switchCase go))
      (collectUntil (·.isPunct "\x7d") (Grammar.switchCase go')) (e.Holds around) (.curly :: stack) t :=
    Carries.collectUntil (fun _ _ => rfl) fun _ => hgo.switchCase (hd.enter .curly)
  refine carries_between .curly hcases fun cases _ => carries_finish (by simp) ?_
  simp +contextual [Embedding.Holds,Kind.children]

lemma Carrying.catchParameter (hd : e.Allows around stack 1) :
    Carries e stack True (catchParameter go) (catchParameter go') (e.Holds around) stack s := by
  have hin : e.Allows around (.round :: stack) 2 := ((hd.mono (by decide : 1 ≤ 3)).enter .round).mono (Nat.le_succ _)
  refine carries_eatOpen .round ?_ (carries_pure rfl fun _ => trivial)
  exact carries_upTo .round (hgo.bindingTarget hin) fun param _ => carries_pure param.same fun h => ⟨trivial,h⟩

lemma Carrying.catchClause (hd : e.Allows around stack 1) :
    Carries e stack True (catchClause go) (catchClause go') (e.Holds around) stack s := by
  refine (carries_eatName "catch").next fun _ _ => carries_ite (fun _ => ?_) fun _ =>
    carries_pure rfl fun _ => trivial
  refine (hgo.catchParameter hd).bind fun param _ => (hgo.block (hd.mono (by decide))).bind fun handler _ => ?_
  refine carries_pure (congrArg₂ (fun x y => (x, some y)) param.same handler.same) ?_
  simp +contextual [Embedding.Holds]

lemma Carrying.tryStatement (hd : e.Allows around stack 1) (h : s.peek.Inner) :
    Carries e stack True (tryStatement go) (tryStatement go') (e.Holds around) stack s := by
  have hblock (t : State) : Carries e stack True (Grammar.block go) (Grammar.block go') (e.Holds around) stack t :=
    hgo.block (hd.mono (by decide))
  refine carries_start fun _ _ => carries_skip h ((hblock _).bind fun body _ => ?_)
  refine (hgo.catchClause hd).bind fun ⟨⟨param,handler⟩,⟨param',handler'⟩,hsame⟩ _ => ?_
  obtain ⟨hparam,hhandler⟩ := Prod.mk.inj hsame
  replace hparam : param'.map (BindingTarget.over Node.shape) = param.map (BindingTarget.over Node.shape) := hparam
  replace hhandler : handler'.map Node.shape = handler.map Node.shape := hhandler
  have hnone : handler'.isNone = handler.isNone := Copy.isNone_option ⟨handler,handler',hhandler⟩
  refine (carries_optionally (carries_eatName "finally") hblock).bind fun finalizer _ => ?_
  dsimp only
  rw [hnone,finalizer.isNone_option]
  refine (carries_reportIf _ _).next fun _ _ => carries_finish (by simp [hparam,hhandler]) ?_
  cases param <;> simp +contextual [Embedding.Holds,nodes,Kind.children]

/-! Statements of any form. -/

lemma Carrying.classDeclaration (hd : e.Allows around stack 1) (h : s.peek.kind = .name) :
    Carries e stack True (classDeclaration go) (classDeclaration go') (e.Holds around) stack s := by
  refine carries_start fun _ _ => Carries.goOn (hgo.classParts (hd.mono (by decide)) true h) fun parts _ => ?_
  refine carries_finish (by simp) ?_
  simp +contextual [Kind.children,ClassParts.children,Kind.deeper]

lemma Carrying.labelledStatement (hd : e.Allows around stack 1) (h : s.peek.kind = .name)
    (hcolon : (s.ahead 1).isPunct ":") :
    Carries e stack True (labelledStatement go) (labelledStatement go') (e.Holds around) stack s := by
  rw [← s.peek_advance] at hcolon
  refine carries_start fun _ _ => carries_bump (.of_name h) fun _ => ?_
  refine carries_skip (.of_isPunct hcolon (by decide)) ((hgo.statement hd.inner).bind fun body _ => ?_)
  refine carries_finish (by simp [identOf,Ident.bare]) ?_
  simp +contextual [Embedding.Holds,Kind.children,Kind.deeper]

lemma Carrying.namedStatement (hd : e.Allows around stack 1) (h : s.peek.kind = .name) (span next : Span) :
    Carries e stack True (namedStatement go s.peek (s.ahead 1))
      (namedStatement go' { s.peek with span } { s.ahead 1 with span := next }) (e.Holds around) stack s := by
  have hinner : s.peek.Inner := .of_name h
  refine carries_ite (fun _ => hgo.variableStatement hd h) fun _ => ?_
  dsimp only
  split
  · exact hgo.ifStatement hd hinner
  · exact hgo.forStatement hd hinner
  · exact hgo.whileStatement hd hinner
  · exact hgo.doStatement hd hinner
  · exact carries_jumpStatement hinner (by simp)
  · exact carries_jumpStatement hinner (by simp)
  · exact hgo.returnStatement hd hinner
  · exact hgo.throwStatement hd hinner
  · exact hgo.switchStatement hd hinner
  · exact hgo.tryStatement hd hinner
  · exact carries_debuggerStatement hinner
  · rename_i htext
    exact hgo.functionDeclaration (hd.mono (by decide)) (startsFunction_of h rfl (.inl (by simp [htext])))
  · exact hgo.classDeclaration hd h
  · refine carries_ite (fun hasync => ?_) fun _ => carries_ite (fun hcolon => ?_) fun _ => ?_
    · exact hgo.functionDeclaration (hd.mono (by decide)) (startsFunction_of h rfl (.inr hasync))
    · rw [Bool.and_eq_true] at hcolon
      exact hgo.labelledStatement hd h hcolon.1
    · exact hgo.expressionStatement hd

lemma Carrying.readStatement (hd : e.Allows around stack 1) :
    Carries e stack True (readStatement go) (readStatement go') (e.Holds around) stack s := by
  refine carries_peek fun span => carries_ite (fun h => ?_) fun _ => carries_ite (fun _ => ?_) fun _ =>
    carries_ite (fun h => ?_) fun _ => hgo.expressionStatement hd
  · exact carries_ahead fun next => hgo.namedStatement hd (by simpa using h) span next
  · exact hgo.block (hd.mono (by decide))
  · exact carries_leaf (.of_isPunct h (by decide))

end

end QmlCodeModel.Grammar

/-! Sources of one statement. -/
namespace QmlCodeModel.Grammar

/-! The recursion of the goals. -/

section

variable {e : Embedding} {around m n : Nat} {stack : List Bracket} {s : State} {go go' : Reader}

lemma Carrying.mono (h : Carrying n go go') (hle : m ≤ n) : Carrying m go go' where
  reads goal s hs hbudget := h.reads goal s hs (Nat.lt_of_lt_of_le hbudget hle)
  template s hs hbudget := h.template s hs (Nat.lt_of_lt_of_le hbudget hle)
  body s hs hbudget := h.body s hs (Nat.lt_of_lt_of_le hbudget hle)
  opened s hs hbudget := h.opened s hs (Nat.lt_of_lt_of_le hbudget hle)
  toFaithful := h.toFaithful
  carries goal e hbudget := h.carries goal e (by omega)

lemma Carrying.readGoal (hgo : Carrying e.budget go go') (goal : Goal) (hd : e.Allows around stack (goal.entry + 1))
    (hgoal : goal.StartsAt s.peek) :
    Carries e stack True (readGoal go goal) (readGoal go' goal) (e.Holds around) stack s := by
  cases goal with
  | statement => exact hgo.readStatement hd
  | assignment => exact hgo.readAssignment hd
  | unary => exact hgo.readUnary hd
  | newExpression => exact hgo.readNew hd hgoal
  | primary => exact hgo.readPrimary hd hgoal
  | initializer => exact hgoal.elim
  | binary above => exact hgo.readBinary hd above

/-- By induction on the levels: what is read with so many of them carries over to any number above. -/
theorem carrying_readWithin (h : m ≤ n) : Carrying m (readWithin m) (readWithin n) := by
  induction m generalizing n with
  | zero => exact ⟨obeys_readWithin 0,faithful_readWithin false 0,fun _ _ _ _ _ _ _ _ _ _ h => nomatch h⟩
  | succ m ih =>
    obtain ⟨n,rfl⟩ := Nat.exists_eq_add_of_lt h
    refine ⟨obeys_readWithin (m + 1),faithful_readWithin false (m + 1),?_⟩
    intro goal e hbudget around stack hd s hgoal
    exact ((ih (Nat.le_add_right m n)).mono hbudget).readGoal goal hd hgoal

end

/-! Rows of one statement. -/

section

variable {go : Reader} {s t : State} {n : Node}

/-- A round of the elements of a program. -/
def elementRound (go : Reader) : Parser (Round Node) :=
  roundUntil (·.kind == .eof) (everyRound (one (statement go)))

lemma bind_ok {α β : Type} {p : Parser α} {k : α → Parser β} {a : α} (h : p s = .ok (a,t)) :
    (p >>= k) s = k a t := by
  simp only [Bind.bind,StateT.bind,h,Except.bind]

lemma elementRound_end (h : s.peek.kind = .eof) : elementRound go s = .ok (⟨[],false⟩,s) := by
  change (if s.peek.kind == .eof || s.peek.kind == .eof then _ else _ : Parser (Round Node)) s = _
  rw [if_pos (by simp [h])]
  rfl

lemma elementRound_next {r : Round Node} (h : s.peek.kind ≠ .eof) (hr : elementRound go s = .ok (r,t)) :
    ∃ n u, statement go s = .ok (n,u) ∧ r = ⟨[n],true⟩ ∧ t = if u.taken == s.taken then u.advance else u := by
  change (if s.peek.kind == .eof || s.peek.kind == .eof then _ else _ : Parser (Round Node)) s = _ at hr
  rw [if_neg (by simp [h])] at hr
  obtain ⟨items,t,hitems,⟨⟩⟩ := bind_eq_ok hr
  change (one (statement go) >>= fun a => taken >>= fun after => skipIf (after == s.taken) >>= fun _ => pure a) s = _
    at hitems
  obtain ⟨_,u,ha,hitems⟩ := bind_eq_ok hitems
  obtain ⟨n,u,hn,⟨⟩⟩ := bind_eq_ok ha
  refine ⟨n,u,hn,?_⟩
  replace hitems : (skipIf (u.taken == s.taken) >>= fun _ => pure [n]) u = .ok (items,t) := hitems
  cases hskip : u.taken == s.taken with
  | true =>
    rw [hskip] at hitems
    cases hitems
    exact ⟨rfl,rfl⟩
  | false =>
    rw [hskip] at hitems
    cases hitems
    exact ⟨rfl,rfl⟩

lemma elementRound_of_statement (h : s.peek.kind ≠ .eof) (hn : statement go s = .ok (n,t))
    (htaken : s.taken < t.taken) : elementRound go s = .ok (⟨[n],true⟩,t) := by
  have hprogressing : progressing (one (statement go)) s = .ok ([n],t) := by
    have hkeeps : (t.taken == s.taken) = false := beq_eq_false_iff_ne.mpr (Nat.ne_of_gt htaken)
    change (one (statement go) >>= fun a => taken >>= fun after => skipIf (after == s.taken) >>= fun _ => pure a) s = _
    rw [bind_ok (bind_ok hn)]
    change (skipIf (t.taken == s.taken) >>= fun _ => pure [n]) t = _
    rw [hkeeps]
    rfl
  change (if s.peek.kind == .eof || s.peek.kind == .eof then _ else _ : Parser (Round Node)) s = _
  rw [if_neg (by simp [h])]
  exact bind_ok hprogressing

lemma statementsUntil_eq (go : Reader) (s : State) :
    statementsUntil go (·.kind == .eof) s = collectWithin (elementRound go) (s.rest.length + 1) s := rfl

/-- Rounds that have read nothing are at the end. -/
lemma end_of_collectWithin {rounds : Nat} (h : collectWithin (elementRound go) rounds s = .ok ([],t)) :
    s.peek.kind = .eof ∧ t = s := by
  cases rounds with
  | zero => cases h
  | succ rounds =>
    obtain ⟨r,u,hr,h⟩ := bind_eq_ok h
    by_cases hend : s.peek.kind = .eof
    · rw [elementRound_end hend] at hr
      cases hr
      cases h
      exact ⟨hend,rfl⟩
    · obtain ⟨n,_,_,rfl,_⟩ := elementRound_next hend hr
      obtain ⟨later,_,_,h⟩ := bind_eq_ok h
      cases h

/-- A row of one statement has been read by one round, and the next one has come to the end. -/
lemma statement_of_statementsUntil (hconsumes : Consumes false (statement go)) (heof : s.eof.kind = .eof)
    (h : statementsUntil go (·.kind == .eof) s = .ok ([n],t)) (hblank : t.diagnostics = #[]) :
    statement go s = .ok (n,t) ∧ t.peek.kind = .eof := by
  rw [statementsUntil_eq] at h
  obtain ⟨r,u,hr,h⟩ := bind_eq_ok h
  by_cases hend : s.peek.kind = .eof
  · rw [elementRound_end hend] at hr
    cases hr
    cases h
  obtain ⟨n,v,hn,rfl,rfl⟩ := elementRound_next hend hr
  obtain ⟨later,w,hlater,h⟩ := bind_eq_ok h
  cases h
  obtain ⟨hpeek,hsame⟩ := end_of_collectWithin hlater
  have hdiagnostics : v.diagnostics = #[] := by
    rw [hsame] at hblank
    split at hblank
    · exact sticks_skip v () _ rfl hblank
    · exact hblank
  have htaken := taken_lt_of_consumes hconsumes heof hn hdiagnostics
  rw [if_neg (by simpa using Nat.ne_of_gt htaken)] at hpeek hsame
  rw [hsame]
  exact ⟨hn,hpeek⟩

/-- A statement is a row of its own, if nothing comes behind it. -/
lemma statementsUntil_of_statement (h : s.peek.kind ≠ .eof) (hrest : s.rest ≠ []) (hn : statement go s = .ok (n,t))
    (htaken : s.taken < t.taken) (hend : t.peek.kind = .eof) :
    statementsUntil go (·.kind == .eof) s = .ok ([n],t) := by
  obtain ⟨rounds,hrounds⟩ := Nat.exists_eq_add_of_lt (List.length_pos_iff.mpr hrest)
  have hlater : collectWithin (elementRound go) (0 + rounds + 1) t = .ok ([],t) := bind_ok (elementRound_end hend)
  rw [statementsUntil_eq,hrounds]
  change (elementRound go >>= _) s = _
  rw [bind_ok (elementRound_of_statement h hn htaken)]
  exact bind_ok hlater

end

/-! Programs of one statement. -/

section

variable {go : Reader} {s t : State} {whole : Span}

/-- A program that starts with no directive is a row of statements. -/
lemma readProgram_eq (h : ¬(s.peek.isPunct "." && ((s.ahead 1).isName "pragma" || (s.ahead 1).isName "import"))) :
    readProgram go whole s =
      (statementsUntil go (·.kind == .eof) >>= fun elements => make whole (.program elements)) s := by
  have hdirective : directive s = .ok (⟨[],false⟩,s) := by
    change (if s.peek.isPunct "." && (s.taken == 0 || s.peek.newlineBefore) &&
      ((s.ahead 1).isName "pragma" || (s.ahead 1).isName "import") then _ else _ : Parser (Round Unit)) s = _
    rw [if_neg]
    · rfl
    · simp only [Bool.and_eq_true] at h ⊢
      exact fun hall => h ⟨hall.1.1,hall.2⟩
  have hcollect : collect directive s = .ok ([],s) := by
    change collectWithin directive (s.rest.length + 1) s = _
    exact bind_ok hdirective
  have hdiscard : discard (collect directive) s = .ok ((),s) := by
    change (collect directive s >>= fun r => Except.ok ((),r.2)) = _
    rw [hcollect]
    rfl
  exact bind_ok hdiscard

end

/-! The statement of a condition, and of a loop. -/

section

/-- The state before a word with a name in parentheses. -/
def beforeTest (word : String) (a b c d : Span) (rest : List Token) (eof : Token) (lines : LineIndex) : State where
  rest := [⟨.name,a,word,false⟩,⟨.punct,b,"(",false⟩,⟨.name,c,"x",false⟩,⟨.punct,d,")",false⟩] ++ rest
  eof := eof
  lines := lines

/-- The name in parentheses. -/
def testName (c : Span) : Node := .mk 0 ⟨c.start,max c.stop c.start⟩ (.identifier "x")

/-- The state behind them, inside the statement that they start. -/
def behindTest (c d : Span) (rest : List Token) (eof : Token) (lines : LineIndex) : State where
  rest := rest
  eof := eof
  lines := lines
  taken := 4
  previousStop := d.stop
  nodes := #[testName c]
  depth := 1

variable {a b c d : Span} {rest : List Token} {eof : Token} {lines : LineIndex} {levels : Nat} {body : Node}
  {t : State}

/-- The answer of a statement around the one behind the head. -/
def Wraps (kind : Kind Node) (t : State) (i : Node) (t' : State) : Prop :=
  i.kind = kind ∧ t'.peek = t.peek ∧ t'.diagnostics = t.diagnostics ∧ t'.taken = t.taken

lemma ends_if (hbody : statement (readWithin (levels + 2)) (behindTest c d rest eof lines) = .ok (body,t))
    (hend : t.peek.kind = .eof) :
    Ends [] (statement (readWithin (levels + 3))) (beforeTest "if" a b c d rest eof lines)
      (Wraps (.if (testName c) body none) t) := by
  have helse : eatName "else" t = .ok (false,t) := by
    change (if t.peek.isName "else" then _ else _ : Parser Bool) t = _
    rw [if_neg (by simp [Token.isName,hend])]
    rfl
  have hnone : optionally (eatName "else") (statement (readWithin (levels + 2))) t = .ok (none,t) := bind_ok helse
  change Ends [] ((statement (readWithin (levels + 2)) >>= fun body =>
    optionally (eatName "else") (statement (readWithin (levels + 2))) >>= fun alternate =>
    finish (.if (testName c) body alternate) a.start) >>= fun n =>
    (modify fun s => { s with depth := s.depth - 1 }) >>= fun _ => pure n) (behindTest c d rest eof lines) _
  simp only [bind_assoc]
  rw [ends_known hbody,ends_known hnone]
  exact ⟨rfl,rfl,rfl,rfl⟩

lemma ends_while (hbody : statement (readWithin (levels + 2)) (behindTest c d rest eof lines) = .ok (body,t)) :
    Ends [] (statement (readWithin (levels + 3))) (beforeTest "while" a b c d rest eof lines)
      (Wraps (.while (testName c) body) t) := by
  change Ends [] ((statement (readWithin (levels + 2)) >>= fun body =>
    finish (.while (testName c) body) a.start) >>= fun n =>
    (modify fun s => { s with depth := s.depth - 1 }) >>= fun _ => pure n) (behindTest c d rest eof lines) _
  rw [bind_assoc,ends_known hbody]
  exact ⟨rfl,rfl,rfl,rfl⟩

/-- A word with a name in parentheses starts this layer around the statement behind it. -/
def StartsLayer (word : String) (layer : Node → Node → Kind Node) : Prop :=
  ∀ (a b c d : Span) (rest : List Token) (eof : Token) (lines : LineIndex) (levels : Nat) (body : Node) (t : State),
    statement (readWithin (levels + 2)) (behindTest c d rest eof lines) = .ok (body,t) → t.peek.kind = .eof →
      Ends [] (statement (readWithin (levels + 3))) (beforeTest word a b c d rest eof lines)
        (Wraps (layer (testName c) body) t)

lemma startsLayer_if : StartsLayer "if" fun test body => .if test body none :=
  fun _ _ _ _ _ _ _ _ _ _ => ends_if

lemma startsLayer_while : StartsLayer "while" .while := fun _ _ _ _ _ _ _ _ _ _ hbody _ => ends_while hbody

/-! Texts. -/

lemma opening_of_faultless {text : List Char} (h : (tokenize text).faults = #[]) : opening text = {
    rest := (tokenize text).tokens.toList.dropLast
    eof := (tokenize text).tokens.toList.getLastD default
    lines := LineIndex.ofText text } := by
  unfold opening initialState
  rw [h]
  rfl

/-- The end of a text opens no bracket. -/
lemma openedAt_concat {tokens : List Token} {eof : Token} (heof : eof.kind = .eof) (offset : Nat) :
    Bracket.openedAt (tokens ++ [eof]) offset = Bracket.openedAt tokens offset := by
  have hstep (opened : List Bracket) : Bracket.step opened eof = some opened :=
    Bracket.step_of_kind (by simp [heof]) opened
  have hnest (ts : List Token) : Bracket.nest [] (ts ++ [eof]) = Bracket.nest [] ts := by
    rw [Bracket.nest_append]
    cases Bracket.nest [] ts with
    | none => rfl
    | some opened => simp [Bracket.nest,hstep]
  unfold Bracket.openedAt
  rw [List.takeWhile_append]
  split
  · rename_i hall
    have htokens : tokens.takeWhile (fun t => t.span.start < offset) = tokens :=
      (List.takeWhile_prefix _).eq_of_length hall
    rw [htokens,List.takeWhile_cons]
    split
    · rw [List.takeWhile_nil,hnest]
    · rw [List.append_nil]
  · rfl

/-- The tokens of a word with a name in parentheses, at their places. -/
lemma exists_beforeTest {word : String} {text text' : List Char} (hfaults : (tokenize text').faults = #[])
    (h : (tokenize text').tokens.toList.map Token.bare =
      testTokens word ++ (tokenize text).tokens.toList.map Token.bare) :
    ∃ a b c d rest eof, opening text' = beforeTest word a b c d rest eof (LineIndex.ofText text') ∧
      rest.map Token.bare = (tokenize text).tokens.toList.dropLast.map Token.bare ∧
      eof.bare = ((tokenize text).tokens.toList.getLastD default).bare := by
  obtain ⟨tokens,last,htokens,-⟩ := tokens_tokenize text
  obtain ⟨tokens',last',htokens',-⟩ := tokens_tokenize text'
  rw [opening_of_faultless hfaults,htokens',htokens]
  simp only [List.dropLast_concat,List.getLastD_concat]
  rw [htokens',htokens,List.map_append,List.map_append,← List.append_assoc] at h
  obtain ⟨hrest,hlast⟩ := List.append_inj' h rfl
  simp only [testTokens,List.cons_append,List.nil_append,List.map_eq_cons_iff] at hrest
  obtain ⟨t₁,_,rfl,h₁,t₂,_,rfl,h₂,t₃,_,rfl,h₃,t₄,rest,rfl,h₄,hrest⟩ := hrest
  have hhead : [t₁,t₂,t₃,t₄] = [⟨.name,t₁.span,word,false⟩,⟨.punct,t₂.span,"(",false⟩,⟨.name,t₃.span,"x",false⟩,
      ⟨.punct,t₄.span,")",false⟩] :=
    congrArg₂ List.cons (eq_of_bare (t := ⟨.name,{},word,false⟩) h₁)
      (congrArg₂ List.cons (eq_of_bare (t := ⟨.punct,{},"(",false⟩) h₂)
        (congrArg₂ List.cons (eq_of_bare (t := ⟨.name,{},"x",false⟩) h₃)
          (congrArg₂ List.cons (eq_of_bare (t := ⟨.punct,{},")",false⟩) h₄) rfl)))
  refine ⟨t₁.span,t₂.span,t₃.span,t₄.span,rest,last',?_,hrest,by simpa using hlast⟩
  unfold beforeTest
  rw [← hhead]
  rfl

end

/-! Programs of one statement inside others. -/

section

variable {source : String} {p : Parse} {n : Node}

/-- Whether a program starts with a directive. -/
def startsDirective : List Token → Bool
  | t :: next :: _ => t.isPunct "." && (next.isName "pragma" || next.isName "import")
  | _ => false

lemma directive_of_opening {text : List Char} (hfaults : (tokenize text).faults = #[]) :
    startsDirective (tokenize text).tokens.toList = ((opening text).peek.isPunct "." &&
      (((opening text).ahead 1).isName "pragma" || ((opening text).ahead 1).isName "import")) := by
  obtain ⟨tokens,eof,htokens,heof,-⟩ := tokens_tokenize text
  rw [opening_of_faultless hfaults,htokens,List.dropLast_concat,List.getLastD_concat]
  match tokens with
  | [] => simp [startsDirective,State.peek,Token.isPunct,heof]
  | [t] => rfl
  | t :: next :: rest => rfl

/-- A source that is read with success has been read without an error. -/
lemma blank_of_parse? {form : SourceForm} (h : parse? form source = some p) (hsuccess : p.success) :
    ∃ root t, reading form source.toList = .ok (root,t) ∧ p.root = root ∧ t.diagnostics = #[] := by
  obtain ⟨root,t,hreading,hroot,-,hdiagnostics⟩ := reading_of_parse? h
  refine ⟨root,t,hreading,hroot,blank_of_success ((since_reading hreading).1.errors (fresh_opening _).errors) ?_⟩
  rw [← hdiagnostics]
  exact hsuccess

/-- A program of one statement that is read with success is this statement, read from its first token to its
last. -/
lemma statement_of_parse? (h : parse? .program source = some p) (hsuccess : p.success)
    (hroot : p.root.kind = .program [n]) (hdirective : ¬startsDirective (tokenize source.toList).tokens.toList) :
    (tokenize source.toList).faults = #[] ∧
      ∃ t, statement (readWithin (maxNesting + (opening source.toList).rest.length + 1)) (opening source.toList) =
        .ok (n,t) ∧ t.diagnostics = #[] ∧ t.peek.kind = .eof := by
  obtain ⟨root,t,hreading,hp,hblank⟩ := blank_of_parse? h hsuccess
  obtain ⟨_,hts⟩ := (since_reading hreading).1.took hblank
  have hfaults := faults_of_opening _ hts.blank
  have heof := (ready_opening source.toList).1.eof
  refine ⟨hfaults,?_⟩
  change readProgram _ _ (opening source.toList) = _ at hreading
  rw [readProgram_eq (directive_of_opening hfaults ▸ hdirective)] at hreading
  obtain ⟨elements,v,helements,hmake⟩ := bind_eq_ok hreading
  cases hmake
  obtain rfl : elements = [n] := by simpa [hp,Node.kind] using hroot
  have hconsumes := (faithful_readWithin false (maxNesting + (opening source.toList).rest.length + 1)).statement
  obtain ⟨hn,hend⟩ := statement_of_statementsUntil hconsumes heof helements hblank
  exact ⟨v,hn,hblank,hend⟩

/-- A statement that is a program is read to the same tree behind a word with a name in parentheses that starts a
layer around it. The levels that it needs are seen in its own tree. -/
lemma parse?_behind_word (word : Word) {layer : Node → Node → Kind Node} (hlayer : StartsLayer word.text layer)
    {target : String} (htarget : target.toList = word.text.toList ++ (testChars ++ source.toList))
    (h : parse? .program source = some p) (hsuccess : p.success) (hroot : p.root.kind = .program [n])
    (hdirective : ¬startsDirective (tokenize source.toList).tokens.toList)
    (hfirst : (tokenize source.toList).first.kind ≠ .regExp)
    (hlevels : n.levels (Bracket.openedAt (tokenize source.toList).tokens.toList) ≤ 50) :
    ∃ q i test body, parse? .program target = some q ∧ q.success ∧ q.root.kind = .program [i] ∧
      i.kind = layer test body ∧ body.shape = n.shape := by
  obtain ⟨hfaults,t,hn,hblank,hend⟩ := statement_of_parse? h hsuccess hroot hdirective
  obtain ⟨hfaults',htokens'⟩ := tokenize_behind_test word hfaults hfirst
  rw [← htarget] at hfaults' htokens'
  obtain ⟨a,b,c,d,rest,eof,hopening,hrest,heof⟩ := exists_beforeTest hfaults' htokens'
  obtain ⟨tokens,last,htokens,hlast,-⟩ := tokens_tokenize source.toList
  have hwithin := opening_within source.toList
  have hbefore := opening_of_faultless hfaults
  rw [htokens] at hbefore hrest heof hlevels
  rw [List.dropLast_concat] at hbefore hrest
  rw [List.getLastD_concat] at hbefore heof
  have hlength : (opening source.toList).rest.length = tokens.length := by rw [hbefore]
  rw [hlength] at hn hwithin
  have hlength' : rest.length = tokens.length := by simpa using congrArg List.length hrest
  generalize hm : maxNesting + tokens.length + 1 = m at hn hwithin
  -- The reading by itself beside the one behind the word.
  let e : Embedding := { tokens, lead := 4, budget := m, depth := 1 }
  have hd : e.Allows 1 [] 0 := Nat.le_refl 1
  have hgo : Carrying m (readWithin m) (readWithin (m + 3)) := carrying_readWithin (Nat.le_add_right m 3)
  have hcarried := Carrying.statement (e := e) (s := opening source.toList) hgo hd n t hn hblank
  have hreached : Reached e.tokens e.budget [] (opening source.toList) :=
    ⟨hwithin,hbefore ▸ rfl,[],by rw [hbefore]; rfl,rfl,by simp⟩
  have hfits : e.Holds 1 n := by
    intro x hx
    obtain rfl := List.mem_singleton.mp hx
    have hbrackets : e.brackets = fun offset => 2 * Bracket.openedAt (tokens ++ [last]) offset :=
      funext fun offset => congrArg (2 * ·) (openedAt_concat hlast offset).symm
    have hdouble := x.levels_double_le (Bracket.openedAt (tokens ++ [last]))
    rw [← hbrackets] at hdouble
    unfold Embedding.Admits maxNesting
    omega
  have hmirrors : (opening source.toList).Mirrors e.lead e.depth
      (behindTest c d rest eof (LineIndex.ofText target.toList)) := by
    rw [hbefore]
    exact ⟨⟨hrest,heof,rfl,rfl,rfl⟩,rfl,rfl,rfl⟩
  obtain ⟨body,u,hbody,hshape,hu⟩ := hcarried.again hreached hfits _ hmirrors
  have hpeek : u.peek.kind = .eof := by
    rw [hu.toFaces.eq_peek]
    exact hend
  -- The layer around it, which is all of the program.
  have hwraps := hlayer a b c d rest eof _ (m + 1) body u hbody hpeek
  cases hi : statement (readWithin (m + 4))
      (beforeTest word.text a b c d rest eof (LineIndex.ofText target.toList)) with
  | error e => exact absurd (hwraps.of_error hi).2 (by simp)
  | ok r =>
    obtain ⟨i,v⟩ := r
    obtain ⟨hkind,hpeekv,hdiagnostics,htaken⟩ := hwraps.of_ok hi
    have hrow := statementsUntil_of_statement (by nofun) (by nofun) hi (by
      rw [htaken,hu.taken]
      exact Nat.lt_of_lt_of_le (by decide : 0 < 4) (Nat.le_add_left _ _)) (hpeekv ▸ hpeek)
    have hreading : reading .program target.toList = .ok (v.make ⟨0,byteWidth target.toList⟩ (.program [i])) := by
      change readProgram (readWithin (maxNesting + (opening target.toList).rest.length + 1)) _
        (opening target.toList) = _
      have hfuel : maxNesting + (opening target.toList).rest.length + 1 = m + 4 := by
        rw [hopening]
        simp only [beforeTest,List.length_append,List.length_cons,List.length_nil]
        omega
      rw [hfuel,hopening,readProgram_eq (by nofun),bind_ok hrow]
      rfl
    refine ⟨{
      root := (v.make ⟨0,byteWidth target.toList⟩ (.program [i])).1
      form := .program, nodes := v.nodes.push (v.make ⟨0,byteWidth target.toList⟩ (.program [i])).1
      comments := (tokenize target.toList).comments.toList
      diagnostics := [], directives := v.directives.toList },i,testName c,body,?_,rfl,rfl,hkind,hshape⟩
    have hnone : v.diagnostics = #[] := hdiagnostics.trans hu.blank
    simp [parse?,hreading,Except.toOption,State.make,hnone,Diagnostic.sort]

/-- A program of one statement that starts with no directive and no regular expression, with at most fifty
brackets, statements and operators around any of its nodes, is read to the same tree as the statement of a
condition and as the statement of a loop. -/
theorem parse?_if_while (h : parse? .program source = some p) (hsuccess : p.success)
    (hroot : p.root.kind = .program [n]) (hdirective : ¬startsDirective (tokenize source.toList).tokens.toList)
    (hfirst : (tokenize source.toList).first.kind ≠ .regExp)
    (hlevels : n.levels (Bracket.openedAt (tokenize source.toList).tokens.toList) ≤ 50) :
    (∃ q i test body, parse? .program ("if (x) " ++ source) = some q ∧ q.success ∧ q.root.kind = .program [i] ∧
      i.kind = .if test body none ∧ body.shape = n.shape) ∧
    ∃ q i test body, parse? .program ("while (x) " ++ source) = some q ∧ q.success ∧ q.root.kind = .program [i] ∧
      i.kind = .while test body ∧ body.shape = n.shape :=
  ⟨parse?_behind_word { text := "if" } startsLayer_if (by simp [testChars]) h hsuccess hroot hdirective hfirst
      hlevels,
    parse?_behind_word { text := "while" } startsLayer_while (by simp [testChars]) h hsuccess hroot hdirective
      hfirst hlevels⟩

/-- How deep the nodes of the one statement of a program stand in brackets, statements and operators. -/
def statementLevels? (source : String) (root : Node) : Option Nat :=
  match root.kind with
  | .program [n] => some (n.levels (Bracket.openedAt (tokenize source.toList).tokens.toList))
  | _ => none

lemma exists_statement (source : String) (most : Nat) (h : (parse? .program source).any fun p =>
    p.success && statementLevels? source p.root == some most) :
    ∃ p n, parse? .program source = some p ∧ p.success ∧ p.root.kind = .program [n] ∧
      n.levels (Bracket.openedAt (tokenize source.toList).tokens.toList) = most := by
  obtain ⟨p,hp,hread⟩ := (Option.any_eq_true _ _).mp h
  rw [Bool.and_eq_true,beq_iff_eq] at hread
  obtain ⟨hsuccess,hlevels⟩ := hread
  unfold statementLevels? at hlevels
  split at hlevels
  · rename_i n hroot
    exact ⟨p,n,hp,hsuccess,hroot,Option.some.inj hlevels⟩
  · cases hlevels

/-- A function in a call, with an operator in front of an element of an array. -/
theorem parse?_if_while_call : ∃ p n, parse? .program "f(a => !a[0])" = some p ∧ p.success ∧
    p.root.kind = .program [n] ∧ n.levels (Bracket.openedAt (tokenize "f(a => !a[0])".toList).tokens.toList) = 4 ∧
    (∃ q i test body, parse? .program ("if (x) " ++ "f(a => !a[0])") = some q ∧ q.success ∧
      q.root.kind = .program [i] ∧ i.kind = .if test body none ∧ body.shape = n.shape) ∧
    ∃ q i test body, parse? .program ("while (x) " ++ "f(a => !a[0])") = some q ∧ q.success ∧
      q.root.kind = .program [i] ∧ i.kind = .while test body ∧ body.shape = n.shape := by
  obtain ⟨p,n,hp,hsuccess,hroot,hlevels⟩ := exists_statement "f(a => !a[0])" 4 (by decide +kernel)
  exact ⟨p,n,hp,hsuccess,hroot,hlevels,parse?_if_while hp hsuccess hroot (by decide +kernel) (by decide +kernel)
    (by omega)⟩

/-- Behind the parenthesis of a condition a slash divides: what starts with a regular expression is no statement
there. -/
theorem parse?_if_regExp : ∃ p n, parse? .program "/a/.b" = some p ∧ p.success ∧ p.root.kind = .program [n] ∧
    ¬startsDirective (tokenize "/a/.b".toList).tokens.toList ∧
    n.levels (Bracket.openedAt (tokenize "/a/.b".toList).tokens.toList) = 0 ∧
    ¬∃ q, parse? .program ("if (x) " ++ "/a/.b") = some q ∧ q.success := by
  obtain ⟨p,n,hp,hsuccess,hroot,hlevels⟩ := exists_statement "/a/.b" 0 (by decide +kernel)
  refine ⟨p,n,hp,hsuccess,hroot,by decide +kernel,hlevels,?_⟩
  rintro ⟨q,hq,hsuccess⟩
  obtain ⟨root,t,hreading,-,hblank⟩ := blank_of_parse? hq hsuccess
  have hfails : (reading .program ("if (x) " ++ "/a/.b").toList).toOption.all fun r => r.2.diagnostics.size ≠ 0 := by
    decide +kernel
  rw [hreading] at hfails
  simp [Except.toOption,hblank] at hfails

end

end QmlCodeModel.Grammar
