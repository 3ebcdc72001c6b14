import QmlCodeModel.Proofs.Grammar.Relocation.Basic

/-! Expressions and their parts are read alike where their tokens stand at other places. -/
namespace QmlCodeModel.Grammar

section

variable {r : Relocation} {go : Reader} (hgo : Uniform r go)
include hgo

lemma Uniform.statement : Agrees r (statement go) (statement go) := hgo.nested .statement

lemma Uniform.assignment : Agrees r (assignment go) (assignment go) := hgo.nested .assignment

lemma Uniform.primary : Agrees r (primary go) (primary go) := hgo.nested .primary

lemma Uniform.initializer : Agrees r (initializer go) (initializer go) := hgo.nested .initializer

/-! Expressions in a row, and operands. -/

lemma Uniform.nextExpression : Agrees r (nextExpression go) (nextExpression go) :=
  (agrees_eatPunct ",").next fun _ => agrees_ite
    (hgo.assignment.bind fun n => agrees_pure ⟨.cons n.alike .nil,rfl⟩) (agrees_pure ⟨.nil,rfl⟩)

lemma Uniform.expression : Agrees r (expression go) (expression go) := by
  refine agrees_start.bind fun start => hgo.assignment.bind fun first => ?_
  refine (agrees_atPunct ",").next fun _ => agrees_ite ?_ (agrees_pure first.alike)
  exact hgo.nextExpression.collect.bind fun later => agrees_finish start (by simp)

lemma Uniform.expressionWithIn : Agrees r (expressionWithIn go) (expressionWithIn go) :=
  hgo.expression.withIn true

lemma Uniform.parenthesized : Agrees r (parenthesized go) (parenthesized go) :=
  (agrees_punct "(").next fun _ => hgo.expressionWithIn.bind fun inner =>
    (agrees_punct ")").next fun _ => agrees_pure inner.alike

lemma Uniform.spreadOrAssignment : Agrees r (spreadOrAssignment go) (spreadOrAssignment go) := by
  refine agrees_start.bind fun start => (agrees_eatPunct "...").next fun _ => ?_
  exact agrees_ite (hgo.assignment.bind fun argument => agrees_finish start (by simp)) hgo.assignment

lemma Uniform.arguments : Agrees r (arguments go) (arguments go) :=
  agrees_skip.next fun _ => ((hgo.spreadOrAssignment.one.commaSeparated ")").withIn true).bind fun items =>
    (agrees_punct ")").next fun _ => agrees_pure items.alike

omit hgo in
lemma agrees_memberOf (start : Twin r Nat) (object : Twin r Node) (optional : Bool) :
    Agrees r (memberOf start.left object.left optional) (memberOf start.right object.right optional) :=
  agrees_identifier.choose
    (fun property => (agrees_finish start (by simp)).map fun n => .some n.alike) (agrees_pure .none)

lemma Uniform.indexOf (start : Twin r Nat) (object : Twin r Node) (optional : Bool) :
    Agrees r (indexOf go start.left object.left optional) (indexOf go start.right object.right optional) :=
  hgo.expressionWithIn.bind fun index => (agrees_punct "]").next fun _ =>
    (agrees_finish start (by simp)).map fun n => .some n.alike

lemma Uniform.callOf (start : Twin r Nat) (callee : Twin r Node) (optional : Bool) :
    Agrees r (callOf go start.left callee.left optional) (callOf go start.right callee.right optional) :=
  hgo.arguments.bind fun items => (agrees_finish start (by simp)).map fun n => .some n.alike

lemma Uniform.extendOperand (start : Twin r Nat) (allowCalls : Bool) (operand : Twin r Node) :
    Agrees r (extendOperand go start.left allowCalls operand.left)
      (extendOperand go start.right allowCalls operand.right) := by
  refine agrees_peek fun t span => agrees_ite (agrees_skip.next fun _ => agrees_memberOf start operand false) ?_
  refine agrees_ite (agrees_skip.next fun _ => (agrees_atPunct "(").next fun _ => ?_) ?_
  · refine agrees_ite (hgo.callOf start operand true) ((agrees_eatPunct "[").next fun _ => ?_)
    exact agrees_ite (hgo.indexOf start operand true) (agrees_memberOf start operand true)
  refine agrees_ite (agrees_skip.next fun _ => hgo.indexOf start operand false) ?_
  refine agrees_ite (hgo.callOf start operand false) (agrees_ite ?_ (agrees_pure .none))
  exact hgo.primary.bind fun quasi => (agrees_finish start (by simp)).map fun n => .some n.alike

lemma Uniform.operandTail (start : Twin r Nat) (allowCalls : Bool) (operand : Twin r Node) :
    Agrees r (operandTail go start.left allowCalls operand.left)
      (operandTail go start.right allowCalls operand.right) :=
  Agrees.iterate (hgo.extendOperand start allowCalls) operand

lemma Uniform.operandHead : Agrees r (operandHead go) (operandHead go) :=
  (agrees_atName "new").next fun _ => agrees_ite (hgo.nested .newExpression) hgo.primary

lemma Uniform.operand : Agrees r (operand go) (operand go) :=
  agrees_start.bind fun start => hgo.operandHead.bind fun head => hgo.operandTail start true head

lemma Uniform.callee : Agrees r (callee go) (callee go) :=
  agrees_start.bind fun start => hgo.operandHead.bind fun head => hgo.operandTail start false head

lemma Uniform.calleeArguments : Agrees r (calleeArguments go) (calleeArguments go) :=
  (agrees_atPunct "(").next fun _ => agrees_ite hgo.arguments (agrees_pure .nil)

omit hgo in
lemma agrees_metaProperty (start : Twin r Nat) (word : String) :
    Agrees r (metaProperty start.left word) (metaProperty start.right word) := by
  refine (agrees_finish start rfl).bind fun owner => agrees_skip.next fun _ => ?_
  exact (agrees_memberOf start owner false).choose (fun n => agrees_pure n.alike) (agrees_pure owner.alike)

lemma Uniform.readNew : Agrees r (readNew go) (readNew go) := by
  refine agrees_start.bind fun start => agrees_bump fun keyword span => (agrees_atPunct ".").next fun _ => ?_
  refine agrees_ite (agrees_metaProperty start keyword.text) ?_
  exact hgo.callee.bind fun callee => hgo.calleeArguments.bind fun items => agrees_finish start (by simp)

/-! Blocks, binding targets and functions. -/

lemma Uniform.statementsUntil {stops : Token → Bool} (hstops : Blind stops) :
    Agrees r (statementsUntil go stops) (statementsUntil go stops) :=
  hgo.statement.one.everyRound.collectUntil hstops

lemma Uniform.block : Agrees r (block go) (block go) :=
  agrees_start.bind fun start => (agrees_punct "\x7b").next fun _ =>
    (hgo.statementsUntil fun _ _ => rfl).bind fun statements =>
      (agrees_punct "\x7d").next fun _ => agrees_finish start (by simp)

lemma Uniform.functionBody (async generator : Bool) :
    Agrees r (functionBody go async generator) (functionBody go async generator) :=
  (hgo.block.withIn true).inFunction async generator

lemma Uniform.arrowBody (async : Bool) : Agrees r (arrowBody go async) (arrowBody go async) :=
  (agrees_atPunct "\x7b").next fun _ => agrees_ite (hgo.functionBody async false)
    (hgo.assignment.inFunction async false)

lemma Uniform.bindingTarget : Agrees r (bindingTarget go) (bindingTarget go) := by
  refine agrees_peek fun t span => agrees_ite ?_ ?_
  · refine (hgo.primary.withIn true).bind fun literal => agrees_pure (.some ?_)
    simp [alike,BindingTarget.bare]
  · refine agrees_bindingIdentifier.choose (fun name => agrees_pure (.some ?_)) (agrees_pure .none)
    simp [alike,BindingTarget.bare]

lemma Uniform.defaultValue : Agrees r (defaultValue go) (defaultValue go) :=
  agrees_optionally (agrees_eatPunct "=") hgo.assignment

lemma Uniform.formalParameter : Agrees r (formalParameter go) (formalParameter go) := by
  refine (agrees_eatPunct "...").next fun rest => hgo.bindingTarget.choose (fun target => ?_) (agrees_pure .nil)
  refine hgo.defaultValue.bind fun default => agrees_pure (.cons ?_ .nil)
  simp [alike,FormalParameter.bare]

lemma Uniform.formalParameters : Agrees r (formalParameters go) (formalParameters go) := by
  refine (agrees_expectPunct "(").next fun _ => agrees_ite ?_ (agrees_pure .nil)
  refine ((hgo.formalParameter.commaSeparated ")").withIn true).bind fun params => ?_
  exact (agrees_punct ")").next fun _ => agrees_pure params.alike

omit hgo in
lemma agrees_declaredName {isName : Token → Bool} (hname : Blind isName) (required : Bool)
    (missing : GrammarFault) :
    Agrees r (declaredName required isName missing) (declaredName required isName missing) := by
  refine agrees_peek fun t span => ?_
  rw [hname t span]
  exact agrees_ite agrees_bindingIdentifier ((agrees_reportIf required missing).next fun _ => agrees_pure .none)

lemma Uniform.function (nameRequired : Bool) :
    Agrees r (function go nameRequired) (function go nameRequired) := by
  refine (agrees_eatName "async").next fun async => agrees_skip.next fun _ => ?_
  refine (agrees_eatPunct "*").next fun generator => ?_
  refine (agrees_declaredName (fun _ _ => rfl) nameRequired .expectedFunctionName).bind fun name => ?_
  refine hgo.formalParameters.bind fun params => (hgo.functionBody async generator).bind fun body => ?_
  exact agrees_pure (by simp [alike,FunctionParts.bare])

lemma Uniform.functionDeclaration : Agrees r (functionDeclaration go) (functionDeclaration go) :=
  agrees_start.bind fun start => (hgo.function true).bind fun parts => agrees_finish start (by simp)

lemma Uniform.functionExpression : Agrees r (functionExpression go) (functionExpression go) :=
  agrees_start.bind fun start => (hgo.function false).bind fun parts => agrees_finish start (by simp)

/-! Arrow functions. -/

omit hgo

lemma map_bare {l l' : List Token} (h : alike r l l') : l.map Token.bare = l'.map Token.bare := by
  have hbare (t t' : Token) (h : alike r t t') : t.bare = t'.bare := h.1
  exact (Twin.map_eq hbare h).symm

lemma closesBeforeArrow_bare (depth : Nat) (tokens : List Token) :
    closesBeforeArrow depth (tokens.map Token.bare) = closesBeforeArrow depth tokens := by
  fun_induction closesBeforeArrow depth tokens with
  | case1 => rfl
  | case2 depth t rest h ih =>
    rw [List.map_cons,closesBeforeArrow,if_pos (by exact h),ih]
  | case3 depth t rest h h' hle =>
    rw [List.map_cons,closesBeforeArrow,if_neg (by exact h),if_pos (by exact h'),if_pos hle]
    cases rest <;> rfl
  | case4 depth t rest h h' hle ih =>
    rw [List.map_cons,closesBeforeArrow,if_neg (by exact h),if_pos (by exact h'),if_neg hle,ih]
  | case5 depth t rest h h' ih =>
    rw [List.map_cons,closesBeforeArrow,if_neg (by exact h),if_neg (by exact h'),ih]

namespace State.Alike

variable {s s' : State}

lemma arrowListAt (h : s.Alike r s') (n : Nat) : s.arrowListAt n = s'.arrowListAt n := by
  have hdrop : alike r (s.rest.drop n) (s'.rest.drop n) := List.forall₂_drop n h.rest
  unfold State.arrowListAt
  rw [eq_of_alike (h.ahead n),← closesBeforeArrow_bare,map_bare hdrop,closesBeforeArrow_bare]
  rfl

lemma startsAsyncArrow (h : s.Alike r s') : s.startsAsyncArrow = s'.startsAsyncArrow := by
  unfold State.startsAsyncArrow
  rw [eq_of_alike h.peek,eq_of_alike (h.ahead 1),eq_of_alike (h.ahead 2),h.arrowListAt]
  rfl

lemma arrowHeadAt (h : s.Alike r s') (n : Nat) : s.arrowHeadAt n = s'.arrowHeadAt n := by
  unfold State.arrowHeadAt
  rw [eq_of_alike (h.ahead n),eq_of_alike (h.ahead (n + 1)),h.arrowListAt]
  rfl

end State.Alike

include hgo

lemma Uniform.arrowParameters (head : ArrowHead) :
    Agrees r (arrowParameters go head) (arrowParameters go head) := by
  cases head with
  | name => exact agrees_bump fun t span => agrees_pure (.cons rfl .nil)
  | list => exact hgo.formalParameters

lemma Uniform.arrowFunction (async : Bool) (head : ArrowHead) :
    Agrees r (arrowFunction go async head) (arrowFunction go async head) := by
  refine agrees_start.bind fun start => (agrees_skipIf async).next fun _ => ?_
  refine (hgo.arrowParameters head).bind fun params => (agrees_punct "=>").next fun _ => ?_
  exact (hgo.arrowBody async).bind fun body => agrees_finish start (by simp [FunctionParts.bare])

/-! Members of object literals and of classes. -/

omit hgo in
lemma agrees_propertyWord : Agrees r propertyWord propertyWord :=
  agrees_peek fun _ _ => agrees_ahead fun _ _ => agrees_ite
    (agrees_skip.next fun _ => agrees_pure rfl)
    (agrees_ite (agrees_skip.next fun _ => agrees_pure rfl) (agrees_pure rfl))

omit hgo in
lemma agrees_propertyModifiers : Agrees r propertyModifiers propertyModifiers :=
  agrees_propertyWord.next fun _ => (agrees_eatPunct "*").next fun _ =>
    agrees_ite (agrees_pure rfl) (agrees_pure rfl)

lemma Uniform.propertyKey : Agrees r (propertyKey go) (propertyKey go) := by
  refine agrees_peek fun ⟨kind,_,text,_⟩ span => ?_
  cases kind
  case name | string | number => exact agrees_skip.next fun _ => agrees_pure rfl
  all_goals
    refine agrees_ite ?_ ((agrees_reportHere _).next fun _ => agrees_pure rfl)
    refine agrees_skip.next fun _ => (hgo.assignment.withIn true).bind fun key => ?_
    exact (agrees_punct "]").next fun _ => agrees_pure (by simp [alike,PropertyKey.bare])

lemma Uniform.method (async generator : Bool) :
    Agrees r (method go async generator) (method go async generator) := by
  refine agrees_start.bind fun start => hgo.formalParameters.bind fun params => ?_
  refine (hgo.functionBody async generator).bind fun body => ?_
  exact agrees_finish start (by simp [FunctionParts.bare])

lemma Uniform.methodProperty (key : Twin r (PropertyKey Node)) (modifiers : PropertyModifiers)
    (isStatic : Bool) (start : Twin r Nat) :
    Agrees r (methodProperty go key.left modifiers isStatic start.left)
      (methodProperty go key.right modifiers isStatic start.right) :=
  (hgo.method modifiers.async modifiers.generator).bind fun method => agrees_finish start (by simp)

lemma Uniform.fieldProperty (key : Twin r (PropertyKey Node)) (isStatic : Bool) (start : Twin r Nat) :
    Agrees r (fieldProperty go key.left isStatic start.left)
      (fieldProperty go key.right isStatic start.right) :=
  (agrees_optionally (agrees_eatPunct "=") (hgo.assignment.withIn true)).bind fun value =>
    agrees_endStatement.next fun _ => agrees_finish start (by simp)

lemma Uniform.shorthandValue (name : String) (start : Twin r Nat) :
    Agrees r (shorthandValue go name start.left) (shorthandValue go name start.right) := by
  refine (agrees_finish start rfl).bind fun ident => (agrees_eatPunct "=").next fun _ => ?_
  refine agrees_ite ?_ (agrees_pure ident.alike)
  exact hgo.assignment.bind fun default => agrees_finish start (by simp)

lemma Uniform.shorthandProperty (name : String) (nameStart start : Twin r Nat) :
    Agrees r (shorthandProperty go name nameStart.left start.left)
      (shorthandProperty go name nameStart.right start.right) :=
  (hgo.shorthandValue name nameStart).bind fun value => agrees_finish start (by simp [PropertyKey.bare])

omit hgo in
lemma plainName?_alike (key : Twin r (PropertyKey Node)) : plainName? key.right = plainName? key.left := by
  obtain ⟨key,key',h⟩ := key
  change key.bare = key'.bare at h
  cases key <;> cases key' <;> first | rfl | cases h
  rfl

lemma Uniform.literalProperty (key : Twin r (PropertyKey Node)) (keyStart : Twin r Nat)
    (modifiers : PropertyModifiers) (isStatic : Bool) (start : Twin r Nat) :
    Agrees r (literalProperty go key.left keyStart.left modifiers isStatic start.left)
      (literalProperty go key.right keyStart.right modifiers isStatic start.right) := by
  refine (agrees_eatPunct ":").next fun _ => agrees_ite ?_ ?_
  · exact hgo.assignment.bind fun value => agrees_finish start (by simp)
  rw [plainName?_alike]
  cases plainName? key.left with
  | some name => exact hgo.shorthandProperty name keyStart start
  | none => exact (agrees_reportHere _).next fun _ => agrees_finish start (by simp)

lemma Uniform.namedProperty (inClass isStatic : Bool) (start : Twin r Nat) :
    Agrees r (namedProperty go inClass isStatic start.left) (namedProperty go inClass isStatic start.right) := by
  refine agrees_propertyModifiers.next fun modifiers => agrees_start.bind fun keyStart => ?_
  refine hgo.propertyKey.bind fun key => (agrees_atPunct "(").next fun _ => ?_
  refine agrees_ite (hgo.methodProperty key modifiers isStatic start) ?_
  exact agrees_ite (hgo.fieldProperty key isStatic start) (hgo.literalProperty key keyStart modifiers isStatic start)

lemma Uniform.objectProperty : Agrees r (objectProperty go) (objectProperty go) := by
  refine agrees_start.bind fun start => (agrees_eatPunct "...").next fun _ => ?_
  refine agrees_ite ?_ (hgo.namedProperty false false start)
  exact hgo.assignment.bind fun argument => agrees_finish start (by simp [PropertyKey.bare])

lemma Uniform.classElement : Agrees r (classElement go) (classElement go) :=
  agrees_start.bind fun start => agrees_ahead fun _ _ => agrees_peek fun _ _ =>
    (agrees_skipIf _).next fun _ => hgo.namedProperty true _ start

lemma Uniform.classRound : Agrees r (classRound go) (classRound go) :=
  (agrees_eatPunct ";").next fun _ => agrees_ite (agrees_pure ⟨.nil,rfl⟩) hgo.classElement.one.everyRound

lemma Uniform.classElements : Agrees r (classElements go) (classElements go) :=
  hgo.classRound.collectUntil fun _ _ => rfl

lemma Uniform.classParts (nameRequired : Bool) :
    Agrees r (classParts go nameRequired) (classParts go nameRequired) := by
  refine agrees_skip.next fun _ => ?_
  refine (agrees_declaredName (fun _ _ => rfl) nameRequired .expectedClassName).bind fun name => ?_
  refine (agrees_optionally (agrees_eatName "extends") hgo.operand).bind fun heritage => ?_
  refine (agrees_punct "\x7b").next fun _ => hgo.classElements.bind fun elements => ?_
  exact (agrees_punct "\x7d").next fun _ => agrees_pure (by simp [alike,ClassParts.bare])

/-! Literals and primary expressions. -/

lemma Uniform.arrayRound : Agrees r (arrayRound go) (arrayRound go) :=
  (agrees_eatPunct ",").next fun _ => agrees_ite (agrees_pure ⟨.cons .none .nil,rfl⟩)
    (Agrees.map hgo.spreadOrAssignment fun n => Option.Rel.some n.alike).one.commaRound

lemma Uniform.arrayElements : Agrees r (arrayElements go) (arrayElements go) :=
  hgo.arrayRound.collectUntil fun _ _ => rfl

lemma Uniform.arrayLiteral : Agrees r (arrayLiteral go) (arrayLiteral go) :=
  agrees_start.bind fun start => agrees_skip.next fun _ => (hgo.arrayElements.withIn true).bind fun elements =>
    (agrees_punct "]").next fun _ => agrees_finish start (by simp)

lemma Uniform.objectLiteral : Agrees r (objectLiteral go) (objectLiteral go) :=
  agrees_start.bind fun start => agrees_skip.next fun _ =>
    ((hgo.objectProperty.one.commaSeparated "\x7d").withIn true).bind fun properties =>
      (agrees_punct "\x7d").next fun _ => agrees_finish start (by simp)

lemma Uniform.groupedExpression : Agrees r (groupedExpression go) (groupedExpression go) := by
  have hinner : Agrees r (groupedInner go) (groupedInner go) :=
    (agrees_atPunct ")").next fun _ => agrees_ite (agrees_missing _) hgo.expressionWithIn
  exact agrees_skip.next fun _ => hinner.bind fun inner => (agrees_punct ")").next fun _ => agrees_pure inner.alike

omit hgo in
lemma agrees_leaf (kind : Kind Node) : Agrees r (leaf kind) (leaf kind) :=
  agrees_start.bind fun start => agrees_skip.next fun _ => agrees_finish start rfl

lemma Uniform.namedPrimary (t next : Token) (span nextSpan : Span) :
    Agrees r (namedPrimary go t next) (namedPrimary go { t with span } { next with span := nextSpan }) := by
  unfold Grammar.namedPrimary
  dsimp only
  cases wordLiteral? t.text with
  | some kind => exact agrees_leaf kind
  | none =>
    refine agrees_ite hgo.functionExpression (agrees_ite ?_ (agrees_ite (hgo.nested .newExpression) ?_))
    · exact agrees_start.bind fun start => (hgo.classParts false).bind fun parts => agrees_finish start (by simp)
    · exact agrees_ite (agrees_missing _) (agrees_leaf _)

lemma Uniform.readPrimary : Agrees r (readPrimary go) (readPrimary go) := by
  refine agrees_peek fun t span => ?_
  dsimp only
  cases t.kind with
  | name => exact agrees_ahead fun next nextSpan => hgo.namedPrimary t next span nextSpan
  | number | string | template | regExp => exact agrees_leaf _
  | punct =>
    refine agrees_ite hgo.groupedExpression (agrees_ite hgo.arrayLiteral ?_)
    exact agrees_ite hgo.objectLiteral (agrees_missing _)
  | eof => exact agrees_missing _

/-! Operators and assignments. -/

lemma Uniform.postfixed : Agrees r (postfixed go) (postfixed go) := by
  refine agrees_start.bind fun start => hgo.operand.bind fun argument => agrees_peek fun t span => ?_
  exact agrees_ite (agrees_skip.next fun _ => agrees_finish start (by simp)) (agrees_pure argument.alike)

lemma Uniform.prefixed {layer : Node → Kind Node}
    (h : ∀ n : Twin r Node, (layer n.left).bare = (layer n.right).bare) :
    Agrees r (prefixed go layer) (prefixed go layer) :=
  agrees_start.bind fun start => agrees_skip.next fun _ => (hgo.nested .unary).bind fun argument =>
    agrees_finish start (h argument)

lemma Uniform.readUnary : Agrees r (readUnary go) (readUnary go) := by
  refine agrees_peek fun t span => agrees_ite (hgo.prefixed fun n => by simp) ?_
  refine agrees_ite (hgo.prefixed fun n => by simp) (agrees_get fun s s' hs => ?_)
  rw [hs.inAsync]
  exact agrees_ite (hgo.prefixed fun n => by simp) hgo.postfixed

lemma Uniform.extendBinary (above : Nat) (start : Twin r Nat) (left : Twin r Node) :
    Agrees r (extendBinary go start.left above left.left) (extendBinary go start.right above left.right) := by
  refine agrees_peek fun t span => agrees_get fun s s' hs => ?_
  have hspan : { t with span }.binaryPrecedence? s'.allowIn = t.binaryPrecedence? s'.allowIn := rfl
  rw [hs.allowIn,hspan]
  cases t.binaryPrecedence? s'.allowIn with
  | none => exact agrees_pure .none
  | some precedence =>
    refine agrees_ite (agrees_pure .none) (agrees_skip.next fun _ => (hgo _).bind fun right => ?_)
    exact (agrees_finish start (by simp)).map fun n => .some n.alike

lemma Uniform.readBinary (above : Nat) : Agrees r (readBinary go above) (readBinary go above) :=
  agrees_start.bind fun start => hgo.readUnary.bind fun left => Agrees.iterate (hgo.extendBinary above start) left

lemma Uniform.conditional : Agrees r (conditional go) (conditional go) := by
  refine agrees_start.bind fun start => (hgo.readBinary 0).bind fun test => (agrees_eatPunct "?").next fun _ => ?_
  refine agrees_ite ?_ (agrees_pure test.alike)
  refine (hgo.assignment.withIn true).bind fun consequent => (agrees_punct ":").next fun _ => ?_
  exact hgo.assignment.bind fun alternate => agrees_finish start (by simp)

lemma Uniform.yieldExpression : Agrees r (yieldExpression go) (yieldExpression go) := by
  have hargument : Agrees r (yieldArgument go) (yieldArgument go) :=
    agrees_peek fun t span => agrees_ite (agrees_pure .none) (hgo.assignment.map fun n => .some n.alike)
  exact agrees_start.bind fun start => agrees_skip.next fun _ => (agrees_eatPunct "*").next fun delegate =>
    hargument.bind fun argument => agrees_finish start (by simp)

omit hgo in
/-- What can be assigned to is seen in its layer. -/
lemma isAssignable_eq (operator : String) (target : Node) : isAssignable operator target =
    match target.kind.bare with
    | .identifier _ | .member _ _ _ | .index _ _ _ => true
    | .array _ | .object _ => operator == "="
    | _ => false := by
  obtain ⟨id,span,kind⟩ := target
  cases kind <;> rfl

omit hgo in
lemma isAssignable_alike (operator : String) (target : Twin r Node) :
    isAssignable operator target.left = isAssignable operator target.right := by
  have h : target.left.kind.bare = target.right.kind.bare := congrArg Prod.snd target.alike.1
  rw [isAssignable_eq,isAssignable_eq,h]

omit hgo in
lemma agrees_checkTarget (operator : String) (target : Twin r Node) :
    Agrees r (checkTarget operator target.left) (checkTarget operator target.right) := by
  unfold checkTarget
  rw [isAssignable_alike]
  exact agrees_ite (agrees_pure rfl) (agrees_report _ target.alike.2)

lemma Uniform.plainAssignment : Agrees r (plainAssignment go) (plainAssignment go) := by
  refine agrees_start.bind fun start => hgo.conditional.bind fun target => agrees_peek fun t span => ?_
  refine agrees_ite ((agrees_checkTarget t.text target).next fun _ => ?_) (agrees_pure target.alike)
  exact agrees_skip.next fun _ => hgo.assignment.bind fun value => agrees_finish start (by simp)

lemma Uniform.readAssignment : Agrees r (readAssignment go) (readAssignment go) := by
  refine agrees_get fun s s' hs => ?_
  dsimp only
  rw [hs.startsAsyncArrow,hs.arrowHeadAt]
  cases s'.arrowHeadAt (if s'.startsAsyncArrow then 1 else 0) with
  | some head => exact hgo.arrowFunction _ head
  | none =>
    rw [hs.inGenerator,eq_of_alike hs.peek]
    exact agrees_ite hgo.yieldExpression hgo.plainAssignment

end

end QmlCodeModel.Grammar
