import QmlCodeModel.Proofs.Grammar.Moves.Basic
import QmlCodeModel.Proofs.Grammar.Pieces
import QmlCodeModel.Proofs.Grammar.Source

/-! Every source is read by the steps of the grammar. Expressions, statements and objects are, if the goals inside
them are, and then the recursion of the goals is closed. A target that cannot be assigned to is reported only where
an operator comes next. -/
namespace QmlCodeModel.Grammar

variable {tokens : List Token} {go : Reader} (hgo : ∀ goal, Moves tokens (go goal))

include hgo

lemma moves_statement : Moves tokens (statement go) := moves_nested (hgo _)
lemma moves_assignment : Moves tokens (assignment go) := moves_nested (hgo _)
lemma moves_primary : Moves tokens (primary go) := moves_nested (hgo _)
lemma moves_initializer : Moves tokens (initializer go) := moves_nested (hgo _)

/-! Operands. -/

lemma moves_expression : Moves tokens (expression go) := by
  have hnext : Moves tokens (nextExpression go) :=
    (moves_eatPunct ",").bind fun _ => moves_ite ((moves_assignment hgo).bind fun _ => moves_pure _) (moves_pure _)
  refine moves_start.bind fun _ => (moves_assignment hgo).bind fun first => (moves_atPunct ",").bind fun _ => ?_
  exact moves_ite ((moves_collect hnext).bind fun _ => moves_finish trivial) (moves_pure first)

lemma moves_expressionWithIn : Moves tokens (expressionWithIn go) := moves_withIn true (moves_expression hgo)

lemma moves_parenthesized : Moves tokens (parenthesized go) :=
  (moves_punct "(").bind fun _ => (moves_expressionWithIn hgo).bind fun inner => (moves_punct ")").bind fun _ =>
    moves_pure inner

lemma moves_spreadOrAssignment : Moves tokens (spreadOrAssignment go) := by
  refine moves_start.bind fun _ => (moves_eatPunct "...").bind fun _ => moves_ite ?_ (moves_assignment hgo)
  exact (moves_assignment hgo).bind fun _ => moves_finish trivial

lemma moves_arguments : Moves tokens (arguments go) := by
  have hitems := moves_commaSeparated ")" (moves_one (moves_spreadOrAssignment hgo))
  exact moves_advance.bind fun _ => (moves_withIn true hitems).bind fun items => (moves_punct ")").bind fun _ =>
    moves_pure items

omit hgo in
lemma moves_memberOf {start : Nat} {object : Node} {optional : Bool} :
    Moves tokens (memberOf start object optional) := by
  refine moves_identifier.bind fun property => ?_
  cases property with
  | none => exact moves_pure none
  | some property => exact Moves.map (moves_finish trivial)

lemma moves_indexOf {start : Nat} {object : Node} {optional : Bool} :
    Moves tokens (indexOf go start object optional) :=
  (moves_expressionWithIn hgo).bind fun _ => (moves_punct "]").bind fun _ => Moves.map (moves_finish trivial)

lemma moves_callOf {start : Nat} {callee : Node} {optional : Bool} :
    Moves tokens (callOf go start callee optional) :=
  (moves_arguments hgo).bind fun _ => Moves.map (moves_finish trivial)

lemma moves_extendOperand {start : Nat} {allowCalls : Bool} (operand : Node) :
    Moves tokens (extendOperand go start allowCalls operand) := by
  refine moves_peek.bind fun t => moves_ite (moves_advance.bind fun _ => moves_memberOf) ?_
  refine moves_ite (moves_advance.bind fun _ => (moves_atPunct "(").bind fun _ => ?_) ?_
  · refine moves_ite (moves_callOf hgo) <| (moves_eatPunct "[").bind fun _ => ?_
    exact moves_ite (moves_indexOf hgo) moves_memberOf
  refine moves_ite (moves_advance.bind fun _ => moves_indexOf hgo) <| moves_ite (moves_callOf hgo) ?_
  exact moves_ite ((moves_primary hgo).bind fun _ => Moves.map (moves_finish trivial)) (moves_pure none)

lemma moves_operandHead : Moves tokens (operandHead go) :=
  (moves_atName "new").bind fun _ => moves_ite (moves_nested (hgo _)) (moves_primary hgo)

lemma moves_operandTail {start : Nat} {allowCalls : Bool} {head : Node} :
    Moves tokens (operandTail go start allowCalls head) := moves_iterate (moves_extendOperand hgo) head

lemma moves_operand : Moves tokens (operand go) :=
  moves_start.bind fun _ => (moves_operandHead hgo).bind fun _ => moves_operandTail hgo

lemma moves_readNew : Moves tokens (readNew go) := by
  have hproperty {start : Nat} {word : String} : Moves tokens (metaProperty start word) :=
    Moves.bind (moves_finish trivial) fun _ => moves_advance.bind fun _ => moves_memberOf.bind fun _ => moves_pure _
  have hcallee : Moves tokens (callee go) :=
    moves_start.bind fun _ => (moves_operandHead hgo).bind fun _ => moves_operandTail hgo
  have harguments : Moves tokens (calleeArguments go) :=
    (moves_atPunct "(").bind fun _ => moves_ite (moves_arguments hgo) (moves_pure [])
  refine moves_start.bind fun _ => moves_bump.bind fun _ => (moves_atPunct ".").bind fun _ => moves_ite hproperty ?_
  exact hcallee.bind fun _ => harguments.bind fun _ => moves_finish trivial

/-! Functions. -/

lemma moves_statementsUntil {stops : Token → Bool} : Moves tokens (statementsUntil go stops) :=
  moves_collectUntil (moves_everyRound (moves_one (moves_statement hgo)))

lemma moves_block : Moves tokens (block go) :=
  moves_start.bind fun _ => (moves_punct "\x7b").bind fun _ => (moves_statementsUntil hgo).bind fun _ =>
    (moves_punct "\x7d").bind fun _ => moves_finish trivial

lemma moves_functionBody {async generator : Bool} : Moves tokens (functionBody go async generator) :=
  moves_inFunction async generator (moves_withIn true (moves_block hgo))

lemma moves_bindingTarget : Moves tokens (bindingTarget go) :=
  moves_peek.bind fun _ => moves_ite ((moves_withIn true (moves_primary hgo)).bind fun _ => moves_pure _) <|
    moves_bindingIdentifier.bind fun _ => moves_pure _

lemma moves_defaultValue : Moves tokens (defaultValue go) :=
  moves_optionally (moves_eatPunct "=") (moves_assignment hgo)

lemma moves_formalParameters : Moves tokens (formalParameters go) := by
  have hparameter : Moves tokens (formalParameter go) := by
    refine (moves_eatPunct "...").bind fun _ => (moves_bindingTarget hgo).bind fun target => ?_
    cases target with
    | none => exact moves_pure []
    | some target => exact (moves_defaultValue hgo).bind fun _ => moves_pure _
  refine (moves_expectPunct "(").bind fun _ => moves_ite ?_ (moves_pure [])
  exact (moves_withIn true (moves_commaSeparated ")" hparameter)).bind fun params => (moves_punct ")").bind fun _ =>
    moves_pure params

omit hgo in
lemma moves_declaredName {required : Bool} {isName : Token → Bool} {missing : GrammarFault} (here : missing.isHere) :
    Moves tokens (declaredName required isName missing) :=
  moves_peek.bind fun _ => moves_ite moves_bindingIdentifier <| (moves_reportIf required here).bind fun _ =>
    moves_pure none

lemma moves_function {nameRequired : Bool} : Moves tokens (function go nameRequired) :=
  (moves_eatName "async").bind fun _ => moves_advance.bind fun _ => (moves_eatPunct "*").bind fun _ =>
    (moves_declaredName rfl).bind fun _ => (moves_formalParameters hgo).bind fun _ =>
      (moves_functionBody hgo).bind fun _ => moves_pure _

lemma moves_functionDeclaration : Moves tokens (functionDeclaration go) :=
  moves_start.bind fun _ => (moves_function hgo).bind fun _ => moves_finish trivial

lemma moves_functionExpression : Moves tokens (functionExpression go) :=
  moves_start.bind fun _ => (moves_function hgo).bind fun _ => moves_finish trivial

lemma moves_arrowFunction {async : Bool} {head : ArrowHead} : Moves tokens (arrowFunction go async head) := by
  have hparameters : Moves tokens (arrowParameters go head) := by
    cases head with
    | name => exact moves_bump.bind fun _ => moves_pure _
    | list => exact moves_formalParameters hgo
  have hbody : Moves tokens (arrowBody go async) :=
    (moves_atPunct "\x7b").bind fun _ => moves_ite (moves_functionBody hgo)
      (moves_inFunction async false (moves_assignment hgo))
  exact moves_start.bind fun _ => (moves_skipIf async).bind fun _ => hparameters.bind fun _ =>
    (moves_punct "=>").bind fun _ => hbody.bind fun _ => moves_finish trivial

/-! Members of object literals and of classes. -/

omit hgo in
lemma moves_propertyModifiers : Moves tokens propertyModifiers := by
  have hword : Moves tokens propertyWord :=
    moves_peek.bind fun _ => (moves_ahead 1).bind fun _ =>
      moves_ite (moves_advance.bind fun _ => moves_pure _) <|
        moves_ite (moves_advance.bind fun _ => moves_pure _) (moves_pure _)
  exact hword.bind fun _ => (moves_eatPunct "*").bind fun _ => moves_ite (moves_pure _) (moves_pure _)

lemma moves_propertyKey : Moves tokens (propertyKey go) := by
  refine moves_peek.bind fun t => ?_
  split
  · exact moves_advance.bind fun _ => moves_pure _
  · exact moves_advance.bind fun _ => moves_pure _
  · exact moves_advance.bind fun _ => moves_pure _
  · refine moves_ite (moves_advance.bind fun _ => ?_) <| (moves_reportHere rfl).bind fun _ => moves_pure _
    exact (moves_withIn true (moves_assignment hgo)).bind fun _ => (moves_punct "]").bind fun _ => moves_pure _

lemma moves_methodProperty {key : PropertyKey Node} {modifiers : PropertyModifiers} {isStatic : Bool} {start : Nat} :
    Moves tokens (methodProperty go key modifiers isStatic start) := by
  have hmethod : Moves tokens (method go modifiers.async modifiers.generator) :=
    moves_start.bind fun _ => (moves_formalParameters hgo).bind fun _ => (moves_functionBody hgo).bind fun _ =>
      moves_finish trivial
  exact hmethod.bind fun _ => moves_finish trivial

lemma moves_fieldProperty {key : PropertyKey Node} {isStatic : Bool} {start : Nat} :
    Moves tokens (fieldProperty go key isStatic start) :=
  (moves_optionally (moves_eatPunct "=") (moves_withIn true (moves_assignment hgo))).bind fun _ =>
    moves_endStatement.bind fun _ => moves_finish trivial

lemma moves_literalProperty {key : PropertyKey Node} {keyStart : Nat} {modifiers : PropertyModifiers}
    {isStatic : Bool} {start : Nat} : Moves tokens (literalProperty go key keyStart modifiers isStatic start) := by
  have hshorthand {name : String} : Moves tokens (shorthandProperty go name keyStart start) := by
    have hvalue : Moves tokens (shorthandValue go name keyStart) :=
      Moves.bind (moves_finish trivial) fun ident => (moves_eatPunct "=").bind fun _ =>
        moves_ite ((moves_assignment hgo).bind fun _ => moves_finish trivial) (moves_pure ident)
    exact hvalue.bind fun _ => moves_finish trivial
  refine (moves_eatPunct ":").bind fun _ =>
    moves_ite ((moves_assignment hgo).bind fun _ => moves_finish trivial) ?_
  split
  · exact hshorthand
  · exact (moves_reportHere rfl).bind fun _ => moves_finish trivial

lemma moves_namedProperty {inClass isStatic : Bool} {start : Nat} :
    Moves tokens (namedProperty go inClass isStatic start) :=
  moves_propertyModifiers.bind fun _ => moves_start.bind fun _ => (moves_propertyKey hgo).bind fun _ =>
    (moves_atPunct "(").bind fun _ => moves_ite (moves_methodProperty hgo) <|
      moves_ite (moves_fieldProperty hgo) (moves_literalProperty hgo)

lemma moves_objectProperty : Moves tokens (objectProperty go) :=
  moves_start.bind fun _ => (moves_eatPunct "...").bind fun _ =>
    moves_ite ((moves_assignment hgo).bind fun _ => moves_finish trivial) (moves_namedProperty hgo)

lemma moves_classParts {nameRequired : Bool} : Moves tokens (classParts go nameRequired) := by
  have helement : Moves tokens (classElement go) :=
    moves_start.bind fun _ => (moves_ahead 1).bind fun _ => moves_peek.bind fun _ => (moves_skipIf _).bind fun _ =>
      moves_namedProperty hgo
  have hround : Moves tokens (classRound go) :=
    (moves_eatPunct ";").bind fun _ => moves_ite (moves_pure _) (moves_everyRound (moves_one helement))
  exact moves_advance.bind fun _ => (moves_declaredName rfl).bind fun _ =>
    (moves_optionally (moves_eatName "extends") (moves_operand hgo)).bind fun _ => (moves_punct "\x7b").bind fun _ =>
      (moves_collectUntil hround).bind fun _ => (moves_punct "\x7d").bind fun _ => moves_pure _

/-! Primary expressions. -/

lemma moves_arrayLiteral : Moves tokens (arrayLiteral go) := by
  have hround : Moves tokens (arrayRound go) :=
    (moves_eatPunct ",").bind fun _ => moves_ite (moves_pure _)
      (moves_commaRound (moves_one (moves_spreadOrAssignment hgo).map))
  exact moves_start.bind fun _ => moves_advance.bind fun _ => (moves_withIn true (moves_collectUntil hround)).bind
    fun _ => (moves_punct "]").bind fun _ => moves_finish trivial

lemma moves_objectLiteral : Moves tokens (objectLiteral go) := by
  have hproperties := moves_commaSeparated "\x7d" (moves_one (moves_objectProperty hgo))
  exact moves_start.bind fun _ => moves_advance.bind fun _ => (moves_withIn true hproperties).bind fun _ =>
    (moves_punct "\x7d").bind fun _ => moves_finish trivial

omit hgo in
lemma moves_missingPrimary {fault : GrammarFault} (here : fault.isHere) : Moves tokens (missingPrimary fault) :=
  (moves_reportHere here).bind fun _ => moves_errorNode

lemma moves_groupedExpression : Moves tokens (groupedExpression go) := by
  have hinner : Moves tokens (groupedInner go) :=
    (moves_atPunct ")").bind fun _ => moves_ite (moves_missingPrimary rfl) (moves_expressionWithIn hgo)
  exact moves_advance.bind fun _ => hinner.bind fun inner => (moves_punct ")").bind fun _ => moves_pure inner

omit hgo in
lemma moves_leaf {kind : Kind Node} (h : kind.Attested tokens) : Moves tokens (leaf kind) :=
  moves_start.bind fun _ => moves_advance.bind fun _ => moves_finish h

omit hgo in
lemma attested_wordLiteral {word : String} {kind : Kind Node} (h : wordLiteral? word = some kind) :
    kind.Attested tokens := by
  unfold wordLiteral? at h
  split at h <;> cases h <;> trivial

lemma moves_namedPrimary {t next : Token} : Moves tokens (namedPrimary go t next) := by
  unfold namedPrimary
  split
  · rename_i kind hkind
    exact moves_leaf (attested_wordLiteral hkind)
  refine moves_ite (moves_functionExpression hgo) <| moves_ite ?_ <| moves_ite (moves_nested (hgo _)) ?_
  · exact moves_start.bind fun _ => (moves_classParts hgo).bind fun _ => moves_finish trivial
  · exact moves_ite (moves_missingPrimary rfl) (moves_leaf trivial)

lemma moves_readPrimary : Moves tokens (readPrimary go) := by
  refine moves_peek.bind fun t => ?_
  split
  · exact (moves_ahead 1).bind fun _ => moves_namedPrimary hgo
  · exact moves_leaf trivial
  · exact moves_leaf trivial
  · exact moves_leaf trivial
  · exact moves_leaf trivial
  · refine moves_ite (moves_groupedExpression hgo) <| moves_ite (moves_arrayLiteral hgo) ?_
    exact moves_ite (moves_objectLiteral hgo) (moves_missingPrimary rfl)
  · exact moves_missingPrimary rfl

/-! Operators. -/

lemma moves_prefixed {layer : Node → Kind Node} (h : ∀ n, (layer n).Attested tokens) :
    Moves tokens (prefixed go layer) :=
  moves_start.bind fun _ => moves_advance.bind fun _ => (moves_nested (hgo _)).bind fun n => moves_finish (h n)

lemma moves_readUnary : Moves tokens (readUnary go) := by
  have hpostfixed : Moves tokens (postfixed go) :=
    moves_start.bind fun _ => (moves_operand hgo).bind fun argument => moves_peek.bind fun _ =>
      moves_ite (moves_advance.bind fun _ => moves_finish trivial) (moves_pure argument)
  refine moves_peek.bind fun t => moves_ite (moves_prefixed hgo fun _ => trivial) ?_
  refine moves_ite (moves_prefixed hgo fun _ => trivial) <| moves_get.bind fun _ => ?_
  exact moves_ite (moves_prefixed hgo fun _ => trivial) hpostfixed

lemma moves_readBinary (above : Nat) : Moves tokens (readBinary go above) := by
  refine moves_start.bind fun start => (moves_readUnary hgo).bind fun left => moves_iterate (fun left => ?_) left
  refine moves_peek.bind fun t => moves_get.bind fun s => ?_
  split
  · exact moves_pure none
  · refine moves_ite (moves_pure none) <| moves_advance.bind fun _ => (hgo _).bind fun _ => ?_
    exact Moves.map (moves_finish trivial)

lemma moves_conditional : Moves tokens (conditional go) := by
  refine moves_start.bind fun _ => (moves_readBinary hgo 0).bind fun test => (moves_eatPunct "?").bind fun _ => ?_
  refine moves_ite ((moves_withIn true (moves_assignment hgo)).bind fun _ => ?_) (moves_pure test)
  exact (moves_punct ":").bind fun _ => (moves_assignment hgo).bind fun _ => moves_finish trivial

omit hgo in
/-- A target is checked where an operator comes next, which is taken then. -/
lemma moves_checkTarget {operator : String} {target : Node} {s t u : State} {a : Unit} {b : Token}
    (hs : s.Upon tokens) (hoperator : s.peek.isAssignmentOperator) (ht : checkTarget operator target s = .ok (a, t))
    (hu : bump t = .ok (b, u)) : Goes tokens s u := by
  have hkind : s.peek.kind ≠ .eof := by
    simp only [Token.isAssignmentOperator,Bool.and_eq_true,beq_iff_eq] at hoperator
    simp [hoperator.1]
  change (if isAssignable operator target then pure () else report _ _ : Parser Unit) s = _ at ht
  cases hu
  split at ht <;> cases ht
  · exact .token s
  · exact .target s _ (State.rest_ne_nil hs.eof hkind)

lemma moves_plainAssignment : Moves tokens (plainAssignment go) := by
  refine moves_start.bind fun start => (moves_conditional hgo).bind fun target => ?_
  intro s hs n v hv
  change (if s.peek.isAssignmentOperator then checkTarget s.peek.text target >>= fun _ => discard bump >>= fun _ =>
    assignment go >>= fun value => finish (.assign s.peek.text target value) start else pure target) s = _ at hv
  split at hv
  · rename_i hoperator
    obtain ⟨_,t,ht,hv⟩ := bind_eq_ok hv
    have hgoes : Goes tokens s t.advance := moves_checkTarget hs hoperator ht rfl
    have hlater := (moves_assignment hgo).bind (k := fun value => finish (.assign s.peek.text target value) start)
      fun _ => moves_finish trivial
    obtain ⟨hgoes',-⟩ := hlater t.advance (hgoes.upon hs) n v hv
    exact ⟨hgoes.append hgoes',trivial⟩
  · cases hv
    exact ⟨.nothing s,trivial⟩

lemma moves_yieldExpression : Moves tokens (yieldExpression go) := by
  have hargument : Moves tokens (yieldArgument go) :=
    moves_peek.bind fun _ => moves_ite (moves_pure none) (moves_assignment hgo).map
  exact moves_start.bind fun _ => moves_advance.bind fun _ => (moves_eatPunct "*").bind fun _ =>
    hargument.bind fun _ => moves_finish trivial

lemma moves_readAssignment : Moves tokens (readAssignment go) := by
  refine moves_get.bind fun s => ?_
  dsimp only
  split
  · exact moves_arrowFunction hgo
  · exact moves_ite (moves_yieldExpression hgo) (moves_plainAssignment hgo)

end QmlCodeModel.Grammar

/-! Statements. -/
namespace QmlCodeModel.Grammar

variable {tokens : List Token} {go : Reader}

lemma moves_variableKind : Moves tokens variableKind := moves_bump.bind fun _ => moves_pure _

lemma moves_jumpStatement {layer : Option Ident → Kind Node} (h : ∀ label, (layer label).Attested tokens) :
    Moves tokens (jumpStatement layer) := by
  have hlabel : Moves tokens jumpLabel := moves_peek.bind fun _ => moves_ite moves_identifier (moves_pure none)
  exact moves_start.bind fun _ => moves_advance.bind fun _ => hlabel.bind fun label =>
    moves_endStatement.bind fun _ => moves_finish (h label)

lemma moves_debuggerStatement : Moves tokens debuggerStatement :=
  moves_start.bind fun _ => moves_advance.bind fun _ => moves_endStatement.bind fun _ => moves_finish trivial

variable (hgo : ∀ goal, Moves tokens (go goal))

include hgo

lemma moves_expressionStatement : Moves tokens (expressionStatement go) :=
  moves_start.bind fun _ => (moves_expression hgo).bind fun _ => moves_finishStatement trivial

lemma moves_variableDeclarations : Moves tokens (variableDeclarations go) := by
  refine moves_collect (moves_start.bind fun _ => (moves_bindingTarget hgo).bind fun target => ?_)
  cases target with
  | none => exact moves_pure _
  | some target =>
    exact (moves_defaultValue hgo).bind fun _ => Moves.bind (moves_finish trivial) fun _ =>
      (moves_eatPunct ",").bind fun _ => moves_pure _

lemma moves_variableStatement : Moves tokens (variableStatement go) :=
  moves_start.bind fun _ => moves_variableKind.bind fun _ => (moves_variableDeclarations hgo).bind fun _ =>
    moves_endStatement.bind fun _ => moves_finish trivial

lemma moves_ifStatement : Moves tokens (ifStatement go) :=
  moves_start.bind fun _ => moves_advance.bind fun _ => (moves_parenthesized hgo).bind fun _ =>
    (moves_statement hgo).bind fun _ => (moves_optionally (moves_eatName "else") (moves_statement hgo)).bind fun _ =>
      moves_finish trivial

lemma moves_whileStatement : Moves tokens (whileStatement go) :=
  moves_start.bind fun _ => moves_advance.bind fun _ => (moves_parenthesized hgo).bind fun _ =>
    (moves_statement hgo).bind fun _ => moves_finish trivial

lemma moves_doStatement : Moves tokens (doStatement go) :=
  moves_start.bind fun _ => moves_advance.bind fun _ => (moves_statement hgo).bind fun _ =>
    (moves_word "while").bind fun _ => (moves_parenthesized hgo).bind fun _ => (moves_eatPunct ";").map.bind fun _ =>
      moves_finish trivial

/-! Loops. -/

lemma moves_loopStart : Moves tokens (loopStart go) := by
  refine moves_peek.bind fun t => moves_ite (moves_pure none) <| (moves_ahead 1).bind fun next => moves_ite ?_ ?_
  · exact moves_start.bind fun _ => moves_variableKind.bind fun _ =>
      (moves_withIn false (moves_variableDeclarations hgo)).bind fun _ => Moves.map (moves_finish trivial)
  · exact (moves_withIn false (moves_expression hgo)).map

omit hgo in
lemma moves_loopWord : Moves tokens loopWord :=
  (moves_eatName "of").bind fun _ => moves_ite (moves_pure _) <| (moves_eatName "in").bind fun _ =>
    moves_ite (moves_pure _) (moves_pure none)

lemma moves_forEach {start : Nat} {kind : ForEachKind} {left : Node} : Moves tokens (forEach go start kind left) :=
  (moves_expressionWithIn hgo).bind fun _ => (moves_punct ")").bind fun _ => (moves_statement hgo).bind fun _ =>
    moves_finish trivial

lemma moves_forLoop {start : Nat} {init : Option Node} : Moves tokens (forLoop go start init) := by
  have hpart (close : String) : Moves tokens (loopPart go close) :=
    (moves_atPunct close).bind fun _ => moves_ite (moves_pure none) (moves_expressionWithIn hgo).map
  exact (moves_punct ";").bind fun _ => (hpart ";").bind fun _ => (moves_punct ";").bind fun _ =>
    (hpart ")").bind fun _ => (moves_punct ")").bind fun _ => (moves_statement hgo).bind fun _ => moves_finish trivial

lemma moves_forStatement : Moves tokens (forStatement go) := by
  refine moves_start.bind fun start => moves_advance.bind fun _ => (moves_punct "(").bind fun _ => ?_
  refine (moves_loopStart hgo).bind fun left => ?_
  cases left with
  | none => exact moves_forLoop hgo
  | some left =>
    refine moves_loopWord.bind fun kind => ?_
    cases kind with
    | none => exact moves_forLoop hgo
    | some kind => exact moves_forEach hgo

/-! Jumps and branches. -/

lemma moves_returnStatement : Moves tokens (returnStatement go) := by
  have hargument : Moves tokens (returnArgument go) :=
    moves_peek.bind fun _ => moves_ite (moves_pure none) (moves_expression hgo).map
  exact moves_start.bind fun _ => moves_advance.bind fun _ => hargument.bind fun _ =>
    moves_endStatement.bind fun _ => moves_finish trivial

lemma moves_throwStatement : Moves tokens (throwStatement go) :=
  moves_start.bind fun _ => moves_advance.bind fun _ => moves_peek.bind fun _ => (moves_reportIf _ rfl).bind fun _ =>
    (moves_expression hgo).bind fun _ => moves_endStatement.bind fun _ => moves_finish trivial

lemma moves_switchStatement : Moves tokens (switchStatement go) := by
  have hbody {start : Nat} {test : Option Node} : Moves tokens (caseBody go start test) :=
    (moves_punct ":").bind fun _ => (moves_statementsUntil hgo).bind fun _ => Moves.bind (moves_finish trivial) fun _ =>
      moves_pure _
  have hcase : Moves tokens (switchCase go) := by
    refine moves_start.bind fun _ => (moves_eatName "case").bind fun _ => moves_ite ?_ ?_
    · exact (moves_expressionWithIn hgo).bind fun _ => hbody
    · refine (moves_eatName "default").bind fun _ => moves_ite hbody ?_
      exact (moves_reportHere rfl).bind fun _ => moves_advance.bind fun _ => moves_pure _
  exact moves_start.bind fun _ => moves_advance.bind fun _ => (moves_parenthesized hgo).bind fun _ =>
    (moves_punct "\x7b").bind fun _ => (moves_collectUntil hcase).bind fun _ => (moves_punct "\x7d").bind fun _ =>
      moves_finish trivial

lemma moves_tryStatement : Moves tokens (tryStatement go) := by
  have hparameter : Moves tokens (catchParameter go) := by
    refine (moves_eatPunct "(").bind fun _ => moves_ite ?_ (moves_pure none)
    exact (moves_bindingTarget hgo).bind fun param => (moves_punct ")").bind fun _ => moves_pure param
  have hclause : Moves tokens (catchClause go) := by
    refine (moves_eatName "catch").bind fun _ => moves_ite ?_ (moves_pure _)
    exact hparameter.bind fun _ => (moves_block hgo).bind fun _ => moves_pure _
  exact moves_start.bind fun _ => moves_advance.bind fun _ => (moves_block hgo).bind fun _ => hclause.bind fun _ =>
    (moves_optionally (moves_eatName "finally") (moves_block hgo)).bind fun _ => (moves_reportIf _ rfl).bind fun _ =>
      moves_finish trivial

lemma moves_labelledStatement : Moves tokens (labelledStatement go) :=
  moves_start.bind fun _ => moves_bump.bind fun _ => moves_advance.bind fun _ => (moves_statement hgo).bind fun _ =>
    moves_finish trivial

lemma moves_classDeclaration : Moves tokens (classDeclaration go) :=
  moves_start.bind fun _ => (moves_classParts hgo).bind fun _ => moves_finish trivial

lemma moves_namedStatement {t next : Token} : Moves tokens (namedStatement go t next) := by
  refine moves_ite (moves_variableStatement hgo) ?_
  split
  · exact moves_ifStatement hgo
  · exact moves_forStatement hgo
  · exact moves_whileStatement hgo
  · exact moves_doStatement hgo
  · exact moves_jumpStatement fun _ => trivial
  · exact moves_jumpStatement fun _ => trivial
  · exact moves_returnStatement hgo
  · exact moves_throwStatement hgo
  · exact moves_switchStatement hgo
  · exact moves_tryStatement hgo
  · exact moves_debuggerStatement
  · exact moves_functionDeclaration hgo
  · exact moves_classDeclaration hgo
  · refine moves_ite (moves_functionDeclaration hgo) ?_
    exact moves_ite (moves_labelledStatement hgo) (moves_expressionStatement hgo)

lemma moves_readStatement : Moves tokens (readStatement go) := by
  refine moves_peek.bind fun t => moves_ite ((moves_ahead 1).bind fun _ => moves_namedStatement hgo) ?_
  refine moves_ite (moves_block hgo) <| moves_ite (moves_leaf trivial) (moves_expressionStatement hgo)

end QmlCodeModel.Grammar

/-! Objects and whole sources. -/
namespace QmlCodeModel.Grammar

variable {tokens : List Token} {go : Reader}

/-! Names and types. -/

lemma moves_qualifiedName : Moves tokens qualifiedName := by
  have htail : Moves tokens nameTail :=
    moves_peek.bind fun _ => (moves_ahead 1).bind fun _ =>
      moves_ite (moves_advance.bind fun _ => moves_bump.bind fun _ => moves_pure _) (moves_pure _)
  refine moves_identifier.bind fun first => ?_
  cases first with
  | none => exact moves_pure _
  | some first => exact (moves_collect htail).bind fun _ => moves_pure _

/-- The angle brackets around the type of a list, after the word for it. -/
lemma moves_listType {α : Type} {k : QualifiedName → α} :
    Moves tokens (do
      discard bump
      let inner ← qualifiedName
      discard (expectPunct ">")
      pure (k inner)) :=
  moves_advance.bind fun _ => moves_qualifiedName.bind fun _ => (moves_punct ">").bind fun _ => moves_pure _

lemma moves_memberType : Moves tokens memberType :=
  (moves_atName "list").bind fun _ => (moves_ahead 1).bind fun _ =>
    moves_ite (moves_advance.bind fun _ => moves_listType) moves_qualifiedName

lemma moves_declaredType : Moves tokens declaredType :=
  (moves_atName "list").bind fun _ => (moves_ahead 1).bind fun _ =>
    moves_ite (moves_bump.bind fun _ => moves_listType) (moves_qualifiedName.bind fun _ => moves_pure _)

lemma moves_signalMember : Moves tokens signalMember := by
  have hparameter : Moves tokens signalParameter := by
    refine moves_peek.bind fun t => (moves_ahead 1).bind fun _ => moves_ite ?_ ?_
    · exact moves_bump.bind fun _ => moves_advance.bind fun _ => moves_memberType.bind fun _ => moves_pure _
    · refine moves_memberType.bind fun _ => moves_identifier.bind fun name => ?_
      cases name with
      | none => exact moves_pure _
      | some name => exact moves_pure _
  have hparameters : Moves tokens signalParameters :=
    (moves_eatPunct "(").bind fun _ => moves_ite
      ((moves_commaSeparated ")" hparameter).bind fun _ => (moves_punct ")").bind fun _ => moves_pure _) (moves_pure [])
  refine moves_start.bind fun _ => moves_advance.bind fun _ => moves_identifier.bind fun name => ?_
  cases name with
  | none => exact moves_finish trivial
  | some name => exact hparameters.bind fun _ => moves_endStatement.bind fun _ => moves_finish trivial

/-! Enumerations. -/

lemma State.peek_eq_of_rest {s : State} {t : Token} {later : List Token} (h : s.rest = t :: later) : s.peek = t := by
  simp [peek,h]

/-- A number, behind a sign that has been taken. -/
lemma number_cases {negative : Bool} {value : Option Double} {s t : State}
    (h : (do
      if (← peek).kind == .number then
        let t ← bump
        let value := Double.ofDecimalText? t.text.toList
        pure (value.map fun v => if negative then v.neg else v)
      else
        reportHere .expectedEnumValue
        pure none : Parser (Option Double)) s = .ok (value, t)) :
    s.peek.kind = .number ∧
        value = (Double.ofDecimalText? s.peek.text.toList).map (fun v => if negative then v.neg else v) ∨
      s.peek.kind ≠ .number ∧ value = none := by
  change (if s.peek.kind == .number then _ else _ : Parser (Option Double)) s = _ at h
  split at h
  · rename_i hkind
    rw [beq_iff_eq] at hkind
    cases h
    exact .inl ⟨hkind,rfl⟩
  · rename_i hkind
    rw [beq_iff_eq] at hkind
    cases h
    exact .inr ⟨hkind,rfl⟩

/-- Behind the equals sign, a sign and a number are read as they are written. -/
lemma follows_enumValue {m : EnumMember} {equals : Token} {s t : State} (hs : s.Upon tokens)
    (hequals : equals.isPunct "=") (h : enumValue s = .ok (m.value, t)) : m.Follows (equals :: s.rest) := by
  cases hminus : s.peek.isPunct "-" with
  | true =>
    have hpunct : s.peek.kind = .punct := by
      simp only [Token.isPunct,Bool.and_eq_true,beq_iff_eq] at hminus
      exact hminus.1
    obtain ⟨negative,u,heat,h⟩ := bind_eq_ok h
    rw [eatPunct_present hminus] at heat
    cases heat
    rw [hs.rest_eq (kind_ne_eof_of_isPunct _ hminus)]
    obtain ⟨hkind,hvalue⟩ | ⟨hkind,hvalue⟩ := number_cases h
    · rw [hs.advance.rest_eq (by simp [hkind])]
      refine ⟨fun hwrites => ?_,fun hnone => absurd (.negative hequals hminus hkind) (hnone true _)⟩
      cases hwrites with
      | plain _ hnumber => simp [hpunct] at hnumber
      | negative _ _ _ => exact hvalue
    · refine ⟨fun hwrites => ?_,fun _ => hvalue⟩
      generalize hrest : s.advance.rest = later at hwrites
      cases hwrites with
      | plain _ hnumber => simp [hpunct] at hnumber
      | negative _ _ hnumber =>
        rw [State.peek_eq_of_rest hrest] at hkind
        exact absurd hnumber hkind
  | false =>
    obtain ⟨negative,u,heat,h⟩ := bind_eq_ok h
    rw [eatPunct_absent hminus] at heat
    cases heat
    obtain ⟨hkind,hvalue⟩ | ⟨hkind,hvalue⟩ := number_cases h
    · rw [hs.rest_eq (by simp [hkind])]
      refine ⟨fun hwrites => ?_,fun hnone => absurd (.plain hequals hkind) (hnone false _)⟩
      generalize s.advance.rest = later at hwrites
      cases hwrites with
      | plain _ _ => exact hvalue
      | negative _ hsign _ => rw [hminus] at hsign; cases hsign
    · refine ⟨fun hwrites => ?_,fun _ => hvalue⟩
      generalize hrest : s.rest = later at hwrites
      cases hwrites with
      | plain _ hnumber =>
        rw [State.peek_eq_of_rest hrest] at hkind
        exact absurd hnumber hkind
      | negative _ hsign _ =>
        rw [State.peek_eq_of_rest hrest,hsign] at hminus
        cases hminus

lemma follows_enumInitializer {m : EnumMember} {s t : State} (hs : s.Upon tokens)
    (h : enumInitializer s = .ok (m.value, t)) : m.Follows s.rest := by
  obtain ⟨present,u,heat,h⟩ := bind_eq_ok h
  cases hequals : s.peek.isPunct "=" with
  | true =>
    rw [eatPunct_present hequals] at heat
    cases heat
    rw [hs.rest_eq (kind_ne_eof_of_isPunct _ hequals)]
    exact follows_enumValue hs.advance hequals h
  | false =>
    rw [eatPunct_absent hequals] at heat
    cases heat
    have hvalue : m.value = none := (Prod.mk.inj (Except.ok.inj h)).1.symm
    refine ⟨fun hwrites => ?_,fun _ => hvalue⟩
    generalize hrest : s.rest = later at hwrites
    cases hwrites with
    | plain hsign _ | negative hsign _ _ =>
      rw [State.peek_eq_of_rest hrest,hsign] at hequals
      cases hequals

lemma moves_enumMember : Moves tokens enumMember := by
  have hvalue : Moves tokens enumValue := by
    refine (moves_eatPunct "-").bind fun _ => moves_peek.bind fun _ => moves_ite ?_ ?_
    · exact moves_bump.bind fun _ => moves_pure _
    · exact (moves_reportHere rfl).bind fun _ => moves_pure none
  have hinitializer : Moves tokens enumInitializer :=
    (moves_eatPunct "=").bind fun _ => moves_ite hvalue (moves_pure none)
  refine moves_identifier.bind fun name => ?_
  cases name with
  | none => exact moves_pure []
  | some name => exact hinitializer.bind fun _ => moves_pure _

/-- The members of an enumeration are those that the tokens write. -/
lemma yields_enumMember : Yields tokens enumMember (Each (·.Attested tokens)) := by
  intro s hs members t ht
  refine ⟨(moves_enumMember s hs members t ht).1,?_⟩
  obtain ⟨name,u,hname,ht⟩ := bind_eq_ok ht
  change (if s.peek.kind == .name then bump >>= fun x => pure (some (identOf x)) else _ : Parser (Option Ident)) s = _
    at hname
  split at hname
  · rename_i hkind
    rw [beq_iff_eq] at hkind
    cases hname
    obtain ⟨value,v,hvalue,ht⟩ := bind_eq_ok ht
    cases ht
    have hrest := hs.rest_eq (by simp [hkind])
    refine fun m hm => ⟨s.peek,s.advance.rest,hrest ▸ hs.rest,?_,?_⟩
    · rw [List.mem_singleton.mp hm]
    · rw [List.mem_singleton.mp hm]
      exact follows_enumInitializer (m := ⟨_,value⟩) hs.advance hvalue
  · cases hname
    cases ht
    exact fun _ hm => absurd hm List.not_mem_nil

lemma moves_enumDeclaration : Moves tokens enumDeclaration := by
  refine moves_start.bind fun _ => moves_advance.bind fun _ => moves_identifier.bind fun name => ?_
  cases name with
  | none => exact moves_finish trivial
  | some name =>
    exact (moves_punct "\x7b").bind fun _ => (yields_commaSeparated "\x7d" yields_enumMember).bind
      fun members hmembers => (moves_punct "\x7d").bind fun _ => moves_finish hmembers

/-! Objects. -/

section

variable (hgo : ∀ goal, Moves tokens (go goal))
include hgo

lemma moves_objectDefinition : Moves tokens (objectDefinition go) :=
  moves_start.bind fun _ => moves_qualifiedName.bind fun _ => (moves_initializer hgo).bind fun _ => moves_finish trivial

lemma moves_objectArray : Moves tokens (objectArray go) := by
  have hmember : Moves tokens (arrayMember go) :=
    moves_upcoming.bind fun _ => moves_ite ((moves_objectDefinition hgo).bind fun _ => moves_pure _) <|
      (moves_reportHere rfl).bind fun _ => moves_pure []
  exact moves_start.bind fun _ => moves_advance.bind fun _ => (moves_commaSeparated "]" hmember).bind fun _ =>
    (moves_punct "]").bind fun _ => moves_get.bind fun _ => moves_pure _

lemma moves_script : Moves tokens (script go) :=
  moves_peek.bind fun _ => moves_ite (moves_statement hgo) (moves_expressionStatement hgo)

lemma moves_firstValue (name : Ident) : Moves tokens (firstValue go name) := by
  refine (moves_eatPunct ":").bind fun _ => moves_ite (moves_upcoming.bind fun _ => ?_) ?_
  · refine moves_ite ((moves_objectDefinition hgo).bind fun _ => moves_pure _) <| moves_ite ?_ ?_
    · exact (moves_objectArray hgo).bind fun _ => Moves.bind (moves_make trivial) fun _ => moves_pure _
    · exact (moves_script hgo).bind fun _ => moves_pure _
  · exact moves_endStatement.bind fun _ => moves_pure _

lemma moves_publicMember : Moves tokens (publicMember go) := by
  have hproperty {start : Nat} {modifiers : MemberModifiers} : Moves tokens (propertyMember go start modifiers) := by
    refine moves_declaredType.bind fun type => moves_identifier.bind fun name => ?_
    cases name with
    | none => exact moves_finish trivial
    | some name => exact (moves_firstValue hgo name).bind fun _ => moves_finish trivial
  have hrequired {start : Nat} {modifiers : MemberModifiers} : Moves tokens (requiredMember start modifiers) := by
    have hname : Moves tokens (requiredName modifiers) := moves_ite moves_identifier (moves_pure none)
    refine hname.bind fun name => ?_
    cases name with
    | none => exact (moves_reportHere rfl).bind fun _ => moves_finish trivial
    | some name => exact moves_endStatement.bind fun _ => moves_finish trivial
  have hmodifier (found : MemberModifiers) : Moves tokens (memberModifier found) :=
    moves_peek.bind fun _ => (moves_ahead 1).bind fun _ =>
      moves_ite ((moves_skipIf _).bind fun _ => moves_pure _) (moves_pure none)
  exact moves_start.bind fun _ => (moves_iterate hmodifier {}).bind fun _ => (moves_eatName "property").bind fun _ =>
    moves_ite hproperty hrequired

lemma moves_bindingMember : Moves tokens (bindingMember go) := by
  have hvalue {start : Nat} {name : QualifiedName} : Moves tokens (boundValue go start name) := by
    refine moves_upcoming.bind fun _ => moves_ite ?_ <| moves_ite ?_ ?_
    · exact moves_qualifiedName.bind fun _ => (moves_initializer hgo).bind fun _ => moves_finish trivial
    · exact (moves_objectArray hgo).bind fun _ => moves_finish trivial
    · exact (moves_script hgo).bind fun _ => moves_make trivial
  refine moves_start.bind fun _ => moves_qualifiedName.bind fun _ => (moves_atName "on").bind fun _ =>
    (moves_ahead 1).bind fun _ => moves_ite ?_ <| (moves_atPunct "\x7b").bind fun _ => moves_ite ?_ ?_
  · exact moves_advance.bind fun _ => moves_qualifiedName.bind fun _ => (moves_initializer hgo).bind fun _ =>
      moves_finish trivial
  · exact (moves_initializer hgo).bind fun _ => moves_finish trivial
  · exact (moves_expectPunct ":").bind fun _ => moves_ite hvalue (moves_finish trivial)

omit hgo in
lemma moves_sourceElement {element : Parser Node} (h : Moves tokens element) : Moves tokens (sourceElement element) :=
  h.bind fun _ => moves_make trivial

lemma moves_namedMember {t next afterNext : Token} : Moves tokens (namedMember go t next afterNext) := by
  have hfunction := moves_sourceElement (moves_functionDeclaration hgo)
  refine moves_ite (moves_publicMember hgo) <| moves_ite moves_signalMember <| moves_ite moves_enumDeclaration ?_
  refine moves_ite hfunction <| moves_ite hfunction <| moves_ite ?_ (moves_bindingMember hgo)
  exact moves_sourceElement (moves_variableStatement hgo)

lemma moves_objectMember : Moves tokens (objectMember go) := by
  refine moves_peek.bind fun _ => moves_ite ?_ <| (moves_reportHere rfl).bind fun _ => moves_pure []
  exact (moves_ahead 1).bind fun _ => (moves_ahead 2).bind fun _ => (moves_namedMember hgo).bind fun _ => moves_pure _

lemma moves_readInitializer : Moves tokens (readInitializer go) :=
  moves_start.bind fun _ => (moves_punct "\x7b").bind fun _ =>
    (moves_collectUntil (moves_everyRound (moves_objectMember hgo))).bind fun _ => (moves_punct "\x7d").bind fun _ =>
      moves_finish trivial

/-! Sources. -/

lemma moves_readGoal (goal : Goal) : Moves tokens (readGoal go goal) := by
  cases goal with
  | statement => exact moves_readStatement hgo
  | assignment => exact moves_readAssignment hgo
  | unary => exact moves_readUnary hgo
  | newExpression => exact moves_readNew hgo
  | primary => exact moves_readPrimary hgo
  | initializer => exact moves_readInitializer hgo
  | binary above => exact moves_readBinary hgo above

omit hgo in
lemma moves_importHeader : Moves tokens importHeader := by
  have htarget : Moves tokens importTarget :=
    moves_peek.bind fun _ => moves_ite (moves_bump.bind fun _ => moves_pure _)
      (moves_qualifiedName.bind fun _ => moves_pure _)
  have hversion : Moves tokens importVersion :=
    moves_peek.bind fun _ => moves_ite (moves_advance.bind fun _ => moves_pure _) (moves_pure none)
  have hqualifier : Moves tokens importQualifier :=
    (moves_eatName "as").bind fun _ => moves_ite moves_identifier (moves_pure none)
  exact moves_start.bind fun start => (moves_place start).bind fun _ => moves_advance.bind fun _ => htarget.bind fun _ =>
    hversion.bind fun _ => hqualifier.bind fun _ => moves_endStatement.bind fun _ =>
      (moves_announce _).bind fun _ => moves_finish trivial

omit hgo in
lemma moves_pragmaHeader : Moves tokens pragmaHeader := by
  refine moves_start.bind fun _ => moves_advance.bind fun _ => moves_identifier.bind fun name =>
    moves_endStatement.bind fun _ => moves_finish ?_
  cases name <;> trivial

omit hgo in
lemma moves_header : Moves tokens header :=
  moves_peek.bind fun _ => (moves_ahead 1).bind fun _ => moves_ite (moves_importHeader.bind fun _ => moves_pure _) <|
    moves_ite (moves_pragmaHeader.bind fun _ => moves_pure _) (moves_pure _)

lemma moves_rootObject : Moves tokens (rootObject go) := by
  have hrefuse : Moves tokens (refuseRest .tokenAfterRootObject) :=
    moves_atEnd.bind fun _ => moves_ite (moves_pure ()) <| (moves_reportHere rfl).bind fun _ => moves_skipRest
  refine moves_upcoming.bind fun _ => moves_ite ?_ ?_
  · exact (moves_objectDefinition hgo).bind fun _ => hrefuse.bind fun _ => moves_pure _
  · exact (moves_reportHere rfl).bind fun _ => moves_skipRest.bind fun _ => moves_pure []

omit hgo in
lemma moves_directiveQualifier : Moves tokens directiveQualifier :=
  (moves_eatName "as").bind fun _ => moves_ite (moves_identifier.bind fun _ => moves_pure _) <|
    (moves_reportHere rfl).bind fun _ => moves_pure none

omit hgo in
lemma moves_directive : Moves tokens directive := by
  have hversion : Moves tokens moduleVersion :=
    moves_peek.bind fun _ => moves_ite (moves_bump.bind fun _ => moves_pure _) <|
      (moves_reportHere rfl).bind fun _ => moves_pure none
  have hafter {word : Token} {place : LineColumn} : Moves tokens (directiveAfter word place) := by
    refine moves_ite ?_ <| moves_peek.bind fun _ => moves_ite ?_ ?_
    · exact (moves_eatName "library").bind fun _ => moves_ite (moves_announce _) (moves_reportHere rfl)
    · exact moves_bump.bind fun _ => moves_directiveQualifier.bind fun _ => moves_announce _
    · exact moves_qualifiedName.bind fun _ => hversion.bind fun _ => moves_directiveQualifier.bind fun _ =>
        moves_announce _
  refine moves_peek.bind fun _ => (moves_ahead 1).bind fun _ => moves_taken.bind fun _ => moves_ite ?_ (moves_pure _)
  exact (moves_place _).bind fun _ => moves_advance.bind fun _ => moves_bump.bind fun _ => hafter.bind fun _ =>
    (moves_eatPunct ";").map.bind fun _ => moves_pure _

lemma moves_readSource (whole : Span) (form : SourceForm) : Moves tokens (readSource go whole form) := by
  cases form with
  | qml =>
    exact (moves_collect moves_header).bind fun _ => (moves_rootObject hgo).bind fun _ => moves_make trivial
  | program =>
    exact (moves_collect moves_directive).map.bind fun _ => (moves_statementsUntil hgo).bind fun _ => moves_make trivial
  | expression =>
    have hexpression : Moves tokens (expressionOrError go) :=
      moves_atEnd.bind fun _ => moves_ite (moves_missingPrimary rfl) (moves_expression hgo)
    exact hexpression.bind fun root => moves_atEnd.bind fun _ => (moves_reportIf _ rfl).bind fun _ => moves_pure root

end

/-- By induction on the levels. -/
lemma moves_readWithin (levels : Nat) (goal : Goal) : Moves tokens (readWithin levels goal) := by
  induction levels generalizing goal with
  | zero =>
    intro _ _ _ _ ht
    cases ht
  | succ levels ih => exact moves_readGoal ih goal

/-- A source is read by the steps of the grammar. -/
theorem goes_reading {form : SourceForm} {text : List Char} {root : Node} {t : State}
    (h : reading form text = .ok (root,t)) : Goes (opening text).rest (opening text) t := by
  have hupon : (opening text).Upon (opening text).rest := ⟨List.suffix_rfl,(ready_opening text).1.eof⟩
  exact (moves_readSource (moves_readWithin _) _ form _ hupon root t h).1

end QmlCodeModel.Grammar
