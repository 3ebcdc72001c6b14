import QmlCodeModel.Proofs.Grammar.Relocation.Expression
import QmlCodeModel.Proofs.Token.Stream

/-! Statements, objects and their members are read alike where their tokens stand at other places. So the layout
of a source does not matter. -/
namespace QmlCodeModel.Grammar

section

variable {r : Relocation} {go : Reader}

lemma agrees_variableKind : Agrees r variableKind variableKind := agrees_bump fun _ _ => agrees_pure rfl

lemma agrees_loopWord : Agrees r loopWord loopWord := by
  refine (agrees_eatName "of").next fun _ => agrees_ite (agrees_pure (.some rfl)) ?_
  exact (agrees_eatName "in").next fun _ => agrees_ite (agrees_pure (.some rfl)) (agrees_pure .none)

lemma agrees_jumpLabel : Agrees r jumpLabel jumpLabel :=
  agrees_peek fun _ _ => agrees_ite agrees_identifier (agrees_pure .none)

lemma agrees_jumpStatement {layer : Option Ident → Kind Node}
    (h : ∀ label : Twin r (Option Ident), (layer label.left).bare = (layer label.right).bare) :
    Agrees r (jumpStatement layer) (jumpStatement layer) :=
  agrees_start.bind fun start => agrees_skip.next fun _ => agrees_jumpLabel.bind fun label =>
    agrees_endStatement.next fun _ => agrees_finish start (h label)

lemma agrees_debuggerStatement : Agrees r debuggerStatement debuggerStatement :=
  agrees_start.bind fun start => agrees_skip.next fun _ => agrees_endStatement.next fun _ => agrees_finish start rfl

variable (hgo : Uniform r go)
include hgo

lemma Uniform.expressionStatement : Agrees r (expressionStatement go) (expressionStatement go) :=
  agrees_start.bind fun start => hgo.expression.bind fun inner => agrees_finishStatement start (by simp)

/-! Variables. -/

lemma Uniform.variableDeclaration : Agrees r (variableDeclaration go) (variableDeclaration go) := by
  refine agrees_start.bind fun start => hgo.bindingTarget.choose (fun target => ?_) (agrees_pure ⟨.nil,rfl⟩)
  refine hgo.defaultValue.bind fun init => (agrees_finish start (by simp)).bind fun node => ?_
  exact (agrees_eatPunct ",").next fun _ => agrees_pure ⟨.cons node.alike .nil,rfl⟩

lemma Uniform.variableDeclarations : Agrees r (variableDeclarations go) (variableDeclarations go) :=
  hgo.variableDeclaration.collect

lemma Uniform.variableStatement : Agrees r (variableStatement go) (variableStatement go) :=
  agrees_start.bind fun start => agrees_variableKind.next fun kind => hgo.variableDeclarations.bind
    fun declarations => agrees_endStatement.next fun _ => agrees_finish start (by simp)

/-! Branches and loops. -/

lemma Uniform.ifStatement : Agrees r (ifStatement go) (ifStatement go) := by
  refine agrees_start.bind fun start => agrees_skip.next fun _ => hgo.parenthesized.bind fun test => ?_
  refine hgo.statement.bind fun consequent => ?_
  refine (agrees_optionally (agrees_eatName "else") hgo.statement).bind fun alternate => ?_
  exact agrees_finish start (by simp)

lemma Uniform.whileStatement : Agrees r (whileStatement go) (whileStatement go) :=
  agrees_start.bind fun start => agrees_skip.next fun _ => hgo.parenthesized.bind fun test =>
    hgo.statement.bind fun body => agrees_finish start (by simp)

lemma Uniform.doStatement : Agrees r (doStatement go) (doStatement go) := by
  refine agrees_start.bind fun start => agrees_skip.next fun _ => hgo.statement.bind fun body => ?_
  refine (agrees_word "while").next fun _ => hgo.parenthesized.bind fun test => ?_
  exact (agrees_eatPunct ";").discard.next fun _ => agrees_finish start (by simp)

lemma Uniform.loopStart : Agrees r (loopStart go) (loopStart go) := by
  refine agrees_peek fun t span => agrees_ite (agrees_pure .none) (agrees_ahead fun next nextSpan => ?_)
  refine agrees_ite (agrees_start.bind fun start => agrees_variableKind.next fun kind => ?_) ?_
  · refine (hgo.variableDeclarations.withIn false).bind fun declarations => ?_
    exact (agrees_finish start (by simp)).map fun n => .some n.alike
  · exact (hgo.expression.withIn false).map fun n => .some n.alike

lemma Uniform.forEach (kind : ForEachKind) (start : Twin r Nat) (left : Twin r Node) :
    Agrees r (forEach go start.left kind left.left) (forEach go start.right kind left.right) :=
  hgo.expressionWithIn.bind fun right => (agrees_punct ")").next fun _ => hgo.statement.bind fun body =>
    agrees_finish start (by simp)

lemma Uniform.loopPart (close : String) : Agrees r (loopPart go close) (loopPart go close) :=
  (agrees_atPunct close).next fun _ => agrees_ite (agrees_pure .none)
    (hgo.expressionWithIn.map fun n => .some n.alike)

lemma Uniform.forLoop (start : Twin r Nat) (init : Twin r (Option Node)) :
    Agrees r (forLoop go start.left init.left) (forLoop go start.right init.right) := by
  refine (agrees_punct ";").next fun _ => (hgo.loopPart ";").bind fun test => ?_
  refine (agrees_punct ";").next fun _ => (hgo.loopPart ")").bind fun step => ?_
  exact (agrees_punct ")").next fun _ => hgo.statement.bind fun body => agrees_finish start (by simp)

lemma Uniform.forStatement : Agrees r (forStatement go) (forStatement go) := by
  refine agrees_start.bind fun start => agrees_skip.next fun _ => (agrees_punct "(").next fun _ => ?_
  refine hgo.loopStart.choose (fun left => ?_) (hgo.forLoop start ⟨none,none,.none⟩)
  refine agrees_loopWord.choose (fun kind => ?_) (hgo.forLoop start ⟨some left.left,some left.right,.some left.alike⟩)
  rw [kind.placeless]
  exact hgo.forEach kind.left start left

/-! Statements that leave something. -/

lemma Uniform.returnStatement : Agrees r (returnStatement go) (returnStatement go) := by
  have hargument : Agrees r (returnArgument go) (returnArgument go) :=
    agrees_peek fun _ _ => agrees_ite (agrees_pure .none) (hgo.expression.map fun n => .some n.alike)
  exact agrees_start.bind fun start => agrees_skip.next fun _ => hargument.bind fun argument =>
    agrees_endStatement.next fun _ => agrees_finish start (by simp)

lemma Uniform.throwStatement : Agrees r (throwStatement go) (throwStatement go) :=
  agrees_start.bind fun start => agrees_skip.next fun _ => agrees_peek fun t _ =>
    (agrees_reportIf t.newlineBefore _).next fun _ => hgo.expression.bind fun argument =>
      agrees_endStatement.next fun _ => agrees_finish start (by simp)

/-! Statements with blocks. -/

lemma Uniform.caseBody (start : Twin r Nat) (test : Twin r (Option Node)) :
    Agrees r (caseBody go start.left test.left) (caseBody go start.right test.right) := by
  refine (agrees_punct ":").next fun _ => (hgo.statementsUntil fun _ _ => rfl).bind fun body => ?_
  exact (agrees_finish start (by simp)).bind fun n => agrees_pure ⟨.cons n.alike .nil,rfl⟩

lemma Uniform.switchCase : Agrees r (switchCase go) (switchCase go) := by
  refine agrees_start.bind fun start => (agrees_eatName "case").next fun _ => agrees_ite ?_ ?_
  · exact hgo.expressionWithIn.bind fun test =>
      hgo.caseBody start ⟨some test.left,some test.right,.some test.alike⟩
  refine (agrees_eatName "default").next fun _ => agrees_ite (hgo.caseBody start ⟨none,none,.none⟩) ?_
  exact (agrees_reportHere _).next fun _ => agrees_skip.next fun _ => agrees_pure ⟨.nil,rfl⟩

lemma Uniform.switchStatement : Agrees r (switchStatement go) (switchStatement go) := by
  refine agrees_start.bind fun start => agrees_skip.next fun _ => hgo.parenthesized.bind fun discriminant => ?_
  refine (agrees_punct "\x7b").next fun _ => (hgo.switchCase.collectUntil fun _ _ => rfl).bind fun cases => ?_
  exact (agrees_punct "\x7d").next fun _ => agrees_finish start (by simp)

lemma Uniform.catchParameter : Agrees r (catchParameter go) (catchParameter go) :=
  (agrees_eatPunct "(").next fun _ => agrees_ite
    (hgo.bindingTarget.bind fun param => (agrees_punct ")").next fun _ => agrees_pure param.alike)
    (agrees_pure .none)

lemma Uniform.catchClause : Agrees r (catchClause go) (catchClause go) :=
  (agrees_eatName "catch").next fun _ => agrees_ite
    (hgo.catchParameter.bind fun param => hgo.block.bind fun handler =>
      agrees_pure ⟨param.alike,.some handler.alike⟩)
    (agrees_pure ⟨.none,.none⟩)

lemma Uniform.tryStatement : Agrees r (tryStatement go) (tryStatement go) := by
  refine agrees_start.bind fun start => agrees_skip.next fun _ => hgo.block.bind fun body => ?_
  refine hgo.catchClause.both fun param handler => ?_
  refine (agrees_optionally (agrees_eatName "finally") hgo.block).bind fun finalizer => ?_
  rw [handler.isNone_option,finalizer.isNone_option]
  exact (agrees_reportIf _ _).next fun _ => agrees_finish start (by simp)

lemma Uniform.classDeclaration : Agrees r (classDeclaration go) (classDeclaration go) :=
  agrees_start.bind fun start => (hgo.classParts true).bind fun parts => agrees_finish start (by simp)

lemma Uniform.labelledStatement : Agrees r (labelledStatement go) (labelledStatement go) :=
  agrees_start.bind fun start => agrees_bump fun _ _ => agrees_skip.next fun _ => hgo.statement.bind fun body =>
    agrees_finish start (by simp)

/-! All statements. -/

lemma Uniform.namedStatement (t next : Token) (span nextSpan : Span) :
    Agrees r (namedStatement go t next) (namedStatement go { t with span } { next with span := nextSpan }) := by
  refine agrees_ite hgo.variableStatement ?_
  dsimp only
  split
  · exact hgo.ifStatement
  · exact hgo.forStatement
  · exact hgo.whileStatement
  · exact hgo.doStatement
  · exact agrees_jumpStatement fun label => by simp
  · exact agrees_jumpStatement fun label => by simp
  · exact hgo.returnStatement
  · exact hgo.throwStatement
  · exact hgo.switchStatement
  · exact hgo.tryStatement
  · exact agrees_debuggerStatement
  · exact hgo.functionDeclaration
  · exact hgo.classDeclaration
  · refine agrees_ite hgo.functionDeclaration ?_
    exact agrees_ite hgo.labelledStatement hgo.expressionStatement

lemma Uniform.readStatement : Agrees r (readStatement go) (readStatement go) := by
  refine agrees_peek fun t span => agrees_ite ?_ ?_
  · exact agrees_ahead fun next nextSpan => hgo.namedStatement t next span nextSpan
  exact agrees_ite hgo.block (agrees_ite (agrees_leaf _) hgo.expressionStatement)

end

section

variable {r : Relocation}

/-! Names. -/

lemma agrees_nameTail : Agrees r nameTail nameTail :=
  agrees_peek fun _ _ => agrees_ahead fun _ _ => agrees_ite
    (agrees_skip.next fun _ => agrees_bump fun _ _ => agrees_pure ⟨.cons rfl .nil,rfl⟩) (agrees_pure ⟨.nil,rfl⟩)

lemma agrees_qualifiedName : Agrees r qualifiedName qualifiedName := by
  refine agrees_identifier.choose (fun first => ?_) (agrees_pure rfl)
  refine agrees_nameTail.collect.bind fun later => agrees_pure ?_
  simp [alike,QualifiedName.bare]

/-- What a dotted name is followed by does not depend on places. -/
lemma dottedEnd_bare (last : Token) (tokens : List Token) : dottedEnd last.bare (tokens.map Token.bare) =
    ((dottedEnd last tokens).1.bare, (dottedEnd last tokens).2.map Token.bare) := by
  fun_induction dottedEnd last tokens with
  | case1 last dot name rest h ih =>
    rw [List.map_cons,List.map_cons,dottedEnd,if_pos (by exact h),ih]
  | case2 last dot name rest h =>
    rw [List.map_cons,List.map_cons,dottedEnd,if_neg (by exact h)]
    rfl
  | case3 => rfl
  | case4 => rfl

lemma startsObject_bare (typeNamed : Bool) (tokens : List Token) :
    startsObject typeNamed (tokens.map Token.bare) = startsObject typeNamed tokens := by
  cases tokens with
  | nil => rfl
  | cons first rest =>
    rw [List.map_cons,startsObject,startsObject,dottedEnd_bare]
    rcases dottedEnd first rest with ⟨last,_ | next⟩ <;> rfl

lemma startsObject_alike {l l' : List Token} (h : alike r l l') (typeNamed : Bool) :
    startsObject typeNamed l = startsObject typeNamed l' := by
  rw [← startsObject_bare,map_bare h,startsObject_bare]

lemma startsObjectArray_alike {l l' : List Token} (h : alike r l l') :
    startsObjectArray l = startsObjectArray l' := by
  cases h with
  | nil => rfl
  | @cons t t' rest rest' ht hrest =>
    rw [startsObjectArray,startsObjectArray,eq_of_alike ht,startsObject_alike hrest]
    rfl

/-! Signals, enumerations and modifiers. -/

lemma agrees_memberType : Agrees r memberType memberType := by
  refine (agrees_atName "list").next fun _ => agrees_ahead fun _ _ => agrees_ite ?_ agrees_qualifiedName
  exact agrees_skip.next fun _ => agrees_skip.next fun _ => agrees_qualifiedName.bind fun inner =>
    (agrees_punct ">").next fun _ => agrees_pure inner.alike

lemma agrees_signalParameter : Agrees r signalParameter signalParameter := by
  refine agrees_peek fun _ _ => agrees_ahead fun _ _ => agrees_ite ?_ ?_
  · refine agrees_bump fun name span => agrees_skip.next fun _ => agrees_memberType.bind fun typeName => ?_
    exact agrees_pure (.cons (by simp [alike,SignalParameter.bare]) .nil)
  · refine agrees_memberType.bind fun typeName => agrees_identifier.choose (fun name => ?_) (agrees_pure .nil)
    exact agrees_pure (.cons (by simp [alike,SignalParameter.bare]) .nil)

lemma agrees_signalParameters : Agrees r signalParameters signalParameters :=
  (agrees_eatPunct "(").next fun _ => agrees_ite
    ((agrees_signalParameter.commaSeparated ")").bind fun parameters =>
      (agrees_punct ")").next fun _ => agrees_pure parameters.alike)
    (agrees_pure .nil)

lemma agrees_signalMember : Agrees r signalMember signalMember := by
  refine agrees_start.bind fun start => agrees_skip.next fun _ => ?_
  refine agrees_identifier.choose (fun name => ?_) (agrees_finish start rfl)
  refine agrees_signalParameters.bind fun parameters => agrees_endStatement.next fun _ => ?_
  exact agrees_finish start (by simp [PublicMember.bare])

lemma agrees_enumInitializer : Agrees r enumInitializer enumInitializer := by
  have hvalue : Agrees r enumValue enumValue := by
    refine (agrees_eatPunct "-").next fun negative => agrees_peek fun _ _ => agrees_ite ?_ ?_
    · refine agrees_bump fun t span => agrees_pure ?_
      dsimp only
      cases Double.ofDecimalText? t.text.toList with
      | none => exact .none
      | some v => exact .some rfl
    · exact (agrees_reportHere _).next fun _ => agrees_pure .none
  exact (agrees_eatPunct "=").next fun _ => agrees_ite hvalue (agrees_pure .none)

lemma agrees_enumMember : Agrees r enumMember enumMember := by
  refine agrees_identifier.choose (fun name => ?_) (agrees_pure .nil)
  refine agrees_enumInitializer.bind fun value => agrees_pure (.cons ?_ .nil)
  simp [alike,EnumMember.bare]

lemma agrees_enumDeclaration : Agrees r enumDeclaration enumDeclaration := by
  refine agrees_start.bind fun start => agrees_skip.next fun _ => ?_
  refine agrees_identifier.choose (fun name => ?_) (agrees_finish start rfl)
  refine (agrees_punct "\x7b").next fun _ => (agrees_enumMember.commaSeparated "\x7d").bind fun members => ?_
  exact (agrees_punct "\x7d").next fun _ => agrees_finish start (by simp)

lemma agrees_memberModifier (found : Twin r MemberModifiers) :
    Agrees r (memberModifier found.left) (memberModifier found.right) := by
  rw [found.placeless]
  refine agrees_peek fun t span => agrees_ahead fun _ _ => agrees_ite ?_ (agrees_pure .none)
  refine (agrees_skipIf _).next fun _ => agrees_pure ?_
  change alike r (found.left.note t) (found.left.note t)
  cases found.left.note t with
  | none => exact .none
  | some noted => exact .some rfl

lemma agrees_declaredType : Agrees r declaredType declaredType := by
  refine (agrees_atName "list").next fun _ => agrees_ahead fun _ _ => agrees_ite ?_ ?_
  · refine agrees_bump fun modifier span => agrees_skip.next fun _ => agrees_qualifiedName.bind fun inner => ?_
    exact (agrees_punct ">").next fun _ => agrees_pure ⟨inner.alike,.some rfl⟩
  · exact agrees_qualifiedName.bind fun name => agrees_pure ⟨name.alike,.none⟩

variable {go : Reader} (hgo : Uniform r go)
include hgo

/-! Objects. -/

lemma Uniform.objectDefinition : Agrees r (objectDefinition go) (objectDefinition go) :=
  agrees_start.bind fun start => agrees_qualifiedName.bind fun typeName => hgo.initializer.bind fun init =>
    agrees_finish start (by simp)

lemma Uniform.arrayMember : Agrees r (arrayMember go) (arrayMember go) := by
  refine agrees_upcoming fun l l' hl => ?_
  rw [startsObject_alike hl]
  exact agrees_ite (hgo.objectDefinition.bind fun n => agrees_pure (.cons n.alike .nil))
    ((agrees_reportHere _).next fun _ => agrees_pure .nil)

lemma Uniform.objectArray : Agrees r (objectArray go) (objectArray go) := by
  refine agrees_start.bind fun start => agrees_skip.next fun _ => ?_
  refine (hgo.arrayMember.commaSeparated "]").bind fun members => (agrees_punct "]").next fun _ => ?_
  exact agrees_get fun _ _ _ => agrees_pure ⟨members.alike,start.alike⟩

lemma Uniform.script : Agrees r (script go) (script go) :=
  agrees_peek fun _ _ => agrees_ite hgo.statement hgo.expressionStatement

lemma Uniform.firstValue (name : Twin r Ident) :
    Agrees r (firstValue go name.left) (firstValue go name.right) := by
  refine (agrees_eatPunct ":").next fun _ => agrees_ite (agrees_upcoming fun l l' hl => ?_) ?_
  · rw [startsObject_alike hl,startsObjectArray_alike hl]
    refine agrees_ite (hgo.objectDefinition.bind fun n => agrees_pure ⟨.none,.some n.alike⟩) (agrees_ite ?_ ?_)
    · refine hgo.objectArray.both fun members brackets => ?_
      refine (agrees_make brackets.alike ?_).bind fun array => agrees_pure ⟨.none,.some array.alike⟩
      simp [QualifiedName.bare]
    · exact hgo.script.bind fun n => agrees_pure ⟨.some n.alike,.none⟩
  · exact agrees_endStatement.next fun _ => agrees_pure ⟨.none,.none⟩

lemma Uniform.propertyMember (modifiers : MemberModifiers) (start : Twin r Nat) :
    Agrees r (propertyMember go start.left modifiers) (propertyMember go start.right modifiers) := by
  refine agrees_declaredType.both fun typeName modifier => ?_
  refine agrees_identifier.choose (fun name => ?_) (agrees_finish start rfl)
  exact (hgo.firstValue name).bind fun value => agrees_finish start (by simp [PublicMember.bare])

omit hgo in
lemma agrees_requiredMember (modifiers : MemberModifiers) (start : Twin r Nat) :
    Agrees r (requiredMember start.left modifiers) (requiredMember start.right modifiers) := by
  have hname : Agrees r (requiredName modifiers) (requiredName modifiers) :=
    agrees_ite agrees_identifier (agrees_pure .none)
  refine hname.choose (fun name => agrees_endStatement.next fun _ => ?_) ?_
  · exact agrees_finish start (by simp [PublicMember.bare])
  · exact (agrees_reportHere _).next fun _ => agrees_finish start rfl

lemma Uniform.publicMember : Agrees r (publicMember go) (publicMember go) := by
  refine agrees_start.bind fun start => ?_
  refine (Agrees.iterate agrees_memberModifier ⟨{},{},rfl⟩).next fun modifiers => ?_
  exact (agrees_eatName "property").next fun _ => agrees_ite (hgo.propertyMember modifiers start)
    (agrees_requiredMember modifiers start)

/-! Bindings and elements. -/

lemma Uniform.boundValue (start : Twin r Nat) (name : Twin r QualifiedName) :
    Agrees r (boundValue go start.left name.left) (boundValue go start.right name.right) := by
  refine agrees_upcoming fun l l' hl => ?_
  rw [startsObject_alike hl,startsObjectArray_alike hl]
  refine agrees_ite ?_ (agrees_ite ?_ ?_)
  · exact agrees_qualifiedName.bind fun typeName => hgo.initializer.bind fun init => agrees_finish start (by simp)
  · exact hgo.objectArray.both fun members brackets => agrees_finish start (by simp)
  · exact hgo.script.bind fun value => agrees_make start.alike (by simp)

lemma Uniform.bindingMember : Agrees r (bindingMember go) (bindingMember go) := by
  refine agrees_start.bind fun start => agrees_qualifiedName.bind fun name => ?_
  refine (agrees_atName "on").next fun _ => agrees_ahead fun _ _ => agrees_ite ?_ ?_
  · exact agrees_skip.next fun _ => agrees_qualifiedName.bind fun target => hgo.initializer.bind fun init =>
      agrees_finish start (by simp)
  refine (agrees_atPunct "\x7b").next fun _ => agrees_ite ?_ ?_
  · exact hgo.initializer.bind fun init => agrees_finish start (by simp)
  exact (agrees_expectPunct ":").next fun _ => agrees_ite (hgo.boundValue start name) (agrees_finish start rfl)

omit hgo in
lemma agrees_sourceElement {element : Parser Node} (h : Agrees r element element) :
    Agrees r (sourceElement element) (sourceElement element) :=
  h.bind fun n => agrees_make n.alike.2 (by simp)

lemma Uniform.namedMember (t next afterNext : Token) (span nextSpan afterSpan : Span) :
    Agrees r (namedMember go t next afterNext)
      (namedMember go { t with span } { next with span := nextSpan } { afterNext with span := afterSpan }) := by
  refine agrees_ite hgo.publicMember (agrees_ite agrees_signalMember (agrees_ite agrees_enumDeclaration ?_))
  refine agrees_ite (agrees_sourceElement hgo.functionDeclaration) ?_
  refine agrees_ite (agrees_sourceElement hgo.functionDeclaration) ?_
  exact agrees_ite (agrees_sourceElement hgo.variableStatement) hgo.bindingMember

lemma Uniform.objectMember : Agrees r (objectMember go) (objectMember go) := by
  refine agrees_peek fun t span => agrees_ite ?_ ((agrees_reportHere _).next fun _ => agrees_pure .nil)
  refine agrees_ahead fun next nextSpan => agrees_ahead fun afterNext afterSpan => ?_
  exact (hgo.namedMember t next afterNext span nextSpan afterSpan).bind fun n => agrees_pure (.cons n.alike .nil)

lemma Uniform.readInitializer : Agrees r (readInitializer go) (readInitializer go) := by
  refine agrees_start.bind fun start => (agrees_punct "\x7b").next fun _ => ?_
  refine (hgo.objectMember.everyRound.collectUntil fun _ _ => rfl).bind fun members => ?_
  exact (agrees_punct "\x7d").next fun _ => agrees_finish start (by simp)

end

end QmlCodeModel.Grammar

/-! The layout of a source does not matter: two sources with the same tokens at different places are read
alike. -/
namespace QmlCodeModel

namespace Grammar

section

variable {r : Relocation} {go : Reader}

lemma Uniform.readGoal (hgo : Uniform r go) : Uniform r (readGoal go) := by
  intro goal
  cases goal with
  | statement => exact hgo.readStatement
  | assignment => exact hgo.readAssignment
  | unary => exact hgo.readUnary
  | newExpression => exact hgo.readNew
  | primary => exact hgo.readPrimary
  | initializer => exact hgo.readInitializer
  | binary above => exact hgo.readBinary above

/-- By induction on the levels: without a level there is no answer in either reading. -/
theorem uniform_readWithin (r : Relocation) (levels : Nat) : Uniform r (readWithin levels) := by
  induction levels with
  | zero => exact fun _ _ _ _ => trivial
  | succ levels ih => exact ih.readGoal

/-! Headers of documents and directives of programs. -/

lemma agrees_importQualifier : Agrees r importQualifier importQualifier :=
  (agrees_eatName "as").next fun _ => agrees_ite agrees_identifier (agrees_pure .none)

lemma agrees_importTarget : Agrees r importTarget importTarget :=
  agrees_peek fun _ _ => agrees_ite (agrees_bump fun _ _ => agrees_pure rfl)
    (agrees_qualifiedName.bind fun uri => agrees_pure (by simp [alike,ImportTarget.bare]))

lemma agrees_importVersion : Agrees r importVersion importVersion :=
  agrees_peek fun _ _ => agrees_ite (agrees_skip.next fun _ => agrees_pure (.some rfl)) (agrees_pure .none)

lemma bare_importDirective (target : Twin r ImportTarget) (version qualifier : Option String)
    (place place' : LineColumn) : (importDirective target.left version qualifier place).bare =
      (importDirective target.right version qualifier place').bare := by
  have hbare (target : ImportTarget) (place : LineColumn) :
      (importDirective target version qualifier place).bare =
        importDirective target.bare version qualifier ⟨0, 0⟩ := by
    cases target with
    | module uri => simp [importDirective,Directive.bare,ImportTarget.bare,uri.joined_bare]
    | file path => rfl
  rw [hbare,hbare,target.bare_target]

lemma agrees_importHeader : Agrees r importHeader importHeader := by
  refine agrees_start.bind fun start => agrees_place.bind fun place => agrees_skip.next fun _ => ?_
  refine agrees_importTarget.bind fun target => agrees_importVersion.bind fun version => ?_
  refine agrees_importQualifier.bind fun qualifier => agrees_endStatement.next fun _ => ?_
  refine (agrees_announce ?_).next fun _ => agrees_finish start (by simp)
  rw [version.placeless_option,qualifier.name_label]
  exact bare_importDirective target _ _ _ _

lemma agrees_pragmaHeader : Agrees r pragmaHeader pragmaHeader := by
  refine agrees_start.bind fun start => agrees_skip.next fun _ => ?_
  refine agrees_identifier.choose (fun name => ?_) ?_
  · exact agrees_endStatement.next fun _ => agrees_finish start (by simp)
  · exact agrees_endStatement.next fun _ => agrees_finish start rfl

lemma agrees_header : Agrees r header header := by
  refine agrees_peek fun _ _ => agrees_ahead fun _ _ => agrees_ite ?_ (agrees_ite ?_ (agrees_pure ⟨.nil,rfl⟩))
  · exact agrees_importHeader.bind fun n => agrees_pure ⟨.cons n.alike .nil,rfl⟩
  · exact agrees_pragmaHeader.bind fun n => agrees_pure ⟨.cons n.alike .nil,rfl⟩

lemma agrees_directiveQualifier : Agrees r directiveQualifier directiveQualifier := by
  refine (agrees_eatName "as").next fun _ => agrees_ite ?_ ?_
  · exact agrees_identifier.choose (fun name => agrees_pure (.some (by simpa [alike,Ident.bare] using name.alike)))
      (agrees_pure .none)
  · exact (agrees_reportHere _).next fun _ => agrees_pure .none

lemma agrees_moduleVersion : Agrees r moduleVersion moduleVersion :=
  agrees_peek fun _ _ => agrees_ite (agrees_bump fun _ _ => agrees_pure (.some rfl))
    ((agrees_reportHere _).next fun _ => agrees_pure .none)

lemma agrees_directiveAfter (word : Token) (span : Span) (place place' : LineColumn) :
    Agrees r (directiveAfter word place) (directiveAfter { word with span } place') := by
  refine agrees_ite ?_ (agrees_peek fun _ _ => agrees_ite (agrees_bump fun _ _ => ?_) ?_)
  · exact (agrees_eatName "library").next fun _ => agrees_ite (agrees_announce rfl) (agrees_reportHere _)
  · exact agrees_directiveQualifier.bind fun qualifier => agrees_announce (by simp [Directive.bare,Token.stringValue])
  · refine agrees_qualifiedName.bind fun uri => agrees_moduleVersion.bind fun version => ?_
    exact agrees_directiveQualifier.bind fun qualifier => agrees_announce (by simp [Directive.bare])

lemma agrees_directive : Agrees r directive directive := by
  refine agrees_peek fun t span => agrees_ahead fun next nextSpan => agrees_taken fun _ => ?_
  refine agrees_ite (agrees_place.bind fun place => agrees_skip.next fun _ => ?_) (agrees_pure ⟨.nil,rfl⟩)
  refine agrees_bump fun word wordSpan => (agrees_directiveAfter word wordSpan _ _).next fun _ => ?_
  exact (agrees_eatPunct ";").discard.next fun _ => agrees_pure ⟨.cons rfl .nil,rfl⟩

/-! Roots. -/

lemma agrees_skipRest : Agrees r skipRest skipRest := by
  intro s s' hs
  refine ⟨rfl,.nil,hs.eof,?_,hs.nodes,hs.diagnostics,hs.directives,hs.allowIn,hs.inAsync,hs.inGenerator,hs.depth⟩
  change s.taken + s.rest.length = s'.taken + s'.rest.length
  rw [hs.taken,hs.rest.length_eq]

lemma agrees_refuseRest (fault : GrammarFault) : Agrees r (refuseRest fault) (refuseRest fault) :=
  agrees_atEnd.next fun _ => agrees_ite (agrees_pure rfl) ((agrees_reportHere _).next fun _ => agrees_skipRest)

variable (hgo : Uniform r go)
include hgo

lemma Uniform.rootObject : Agrees r (rootObject go) (rootObject go) := by
  refine agrees_upcoming fun l l' hl => ?_
  rw [startsObject_alike hl]
  refine agrees_ite (hgo.objectDefinition.bind fun n => (agrees_refuseRest _).next fun _ => ?_) ?_
  · exact agrees_pure (.cons n.alike .nil)
  · exact (agrees_reportHere _).next fun _ => agrees_skipRest.next fun _ => agrees_pure .nil

lemma Uniform.readSingleExpression : Agrees r (readSingleExpression go) (readSingleExpression go) := by
  have hroot : Agrees r (expressionOrError go) (expressionOrError go) :=
    agrees_atEnd.next fun _ => agrees_ite (agrees_missing _) hgo.expression
  exact hroot.bind fun root => agrees_atEnd.next fun _ => (agrees_reportIf _ _).next fun _ => agrees_pure root.alike

/-- A whole source, but for the span of its root. -/
theorem Uniform.readSource (whole whole' : Span) (form : SourceForm) :
    Agrees r (Node.bare <$> readSource go whole form) (Node.bare <$> readSource go whole' form) := by
  have root {kind kind' : Kind Node} (h : kind.bare = kind'.bare) :
      Agrees r (Node.bare <$> make whole kind) (Node.bare <$> make whole' kind') :=
    fun s s' hs => hs.make whole whole' h
  cases form with
  | qml =>
    unfold Grammar.readSource readQml
    simp only [map_bind]
    exact agrees_header.collect.bind fun headers => hgo.rootObject.bind fun members => root (by simp)
  | program =>
    unfold Grammar.readSource readProgram
    simp only [map_bind]
    refine agrees_directive.collect.discard.next fun _ => ?_
    exact (hgo.statementsUntil fun _ _ => rfl).bind fun elements => root (by simp)
  | expression => exact hgo.readSingleExpression.map fun n => n.alike.1

end

/-! Two texts with the same tokens. -/

/-- Every token starts behind the one before it. -/
lemma pairwise_starts (text : List Char) :
    (tokenize text).tokens.toList.Pairwise fun t u => t.span.start < u.span.start := by
  have hspread {stop : Nat} (tokens : List Token) (start : Nat) (h : Spread stop start tokens) :
      (∀ t ∈ tokens, start ≤ t.span.start ∧ t.span.start < stop) ∧
        tokens.Pairwise fun t u => t.span.start < u.span.start := by
    induction tokens generalizing start with
    | nil => simp
    | cons t rest ih =>
      obtain ⟨hstart,hlt,hrest⟩ := h
      obtain ⟨hbounds,hpairwise⟩ := ih _ hrest
      refine ⟨?_,List.pairwise_cons.mpr ⟨fun u hu => ?_,hpairwise⟩⟩
      · intro u hu
        obtain rfl | hu := List.mem_cons.mp hu
        · exact ⟨hstart,Nat.lt_of_lt_of_le hlt hrest.le⟩
        · have := hbounds u hu
          omega
      · have := hbounds u hu
        omega
  obtain ⟨tokens,eof,htokens,-,-,h,-⟩ := tokens_tokenize text
  obtain ⟨hbounds,hpairwise⟩ := hspread tokens 0 h
  rw [htokens]
  exact List.pairwise_append.mpr ⟨hpairwise,List.pairwise_singleton _ _,by
    simpa using fun t ht => (hbounds t ht).2⟩

lemma start_le_iff {text : List Char} {i j : Nat} {t u : Token}
    (hi : (tokenize text).tokens.toList[i]? = some t) (hj : (tokenize text).tokens.toList[j]? = some u) :
    t.span.start ≤ u.span.start ↔ i ≤ j := by
  obtain ⟨hilt,rfl⟩ := List.getElem?_eq_some_iff.mp hi
  obtain ⟨hjlt,rfl⟩ := List.getElem?_eq_some_iff.mp hj
  have hstarts := List.pairwise_iff_getElem.mp (pairwise_starts text)
  rcases Nat.lt_trichotomy i j with h | rfl | h
  · have := hstarts i j hilt hjlt h
    omega
  · simp
  · have := hstarts j i hjlt hilt h
    omega

/-- Offsets where the tokens of one number start in two texts. -/
def Corresponds (text text' : List Char) (offset offset' : Nat) : Prop :=
  ∃ (i : Nat) (t t' : Token), (tokenize text).tokens.toList[i]? = some t ∧
    (tokenize text').tokens.toList[i]? = some t' ∧ t.span.start = offset ∧ t'.span.start = offset'

def relocation (text text' : List Char) : Relocation where
  pairs := Corresponds text text'
  le_iff := by
    rintro a a' b b' ⟨i,t,t',ht,ht',rfl,rfl⟩ ⟨j,u,u',hu,hu',rfl,rfl⟩
    rw [start_le_iff ht hu,start_le_iff ht' hu']

section

variable {text text' : List Char}

lemma alike_tokens (h : (tokenize text).tokens.map Token.bare = (tokenize text').tokens.map Token.bare) :
    alike (relocation text text') (tokenize text).tokens.toList (tokenize text').tokens.toList := by
  have hbare := congrArg Array.toList h
  rw [Array.toList_map,Array.toList_map] at hbare
  refine List.forall₂_iff_get.mpr ⟨by simpa using congrArg List.length hbare,fun i hi hi' => ⟨?_,?_⟩⟩
  · have hget := congrArg (fun l : List Token => l[i]?) hbare
    simp only [List.getElem?_map,List.getElem?_eq_getElem hi,List.getElem?_eq_getElem hi'] at hget
    exact Option.some.inj hget
  · exact ⟨i,_,_,List.getElem?_eq_getElem hi,List.getElem?_eq_getElem hi',rfl,rfl⟩

/-- Before the first token, the states are alike. -/
lemma alike_initialState (hfaults : (tokenize text).faults = #[]) (hfaults' : (tokenize text').faults = #[])
    (h : (tokenize text).tokens.map Token.bare = (tokenize text').tokens.map Token.bare) :
    (initialState text (tokenize text)).Alike (relocation text text')
      (initialState text' (tokenize text')) := by
  have htokens := List.forall₂_reverse_iff.mpr (alike_tokens h)
  obtain ⟨tokens,eof,hall,-⟩ := tokens_tokenize text
  obtain ⟨tokens',eof',hall',-⟩ := tokens_tokenize text'
  rw [hall,hall',List.reverse_append,List.reverse_append] at htokens
  obtain _ | ⟨heof,htokens⟩ := htokens
  simp only [initialState,hfaults,hfaults',hall,hall',List.dropLast_concat,List.getLastD_concat,
    Array.foldl_empty]
  exact ⟨List.forall₂_reverse_iff.mp htokens,heof,rfl,rfl,.nil,rfl,rfl,rfl,rfl,rfl⟩

/-- Messages are sorted by the order of the tokens that they stand at. -/
lemma sort_alike {r : Relocation} {ds ds' : List Diagnostic} (h : alike r ds ds') :
    alike r (Diagnostic.sort ds) (Diagnostic.sort ds') := by
  obtain ⟨hlength,hzip⟩ := List.forall₂_iff_zip.mp h
  -- both are sorted as one row of pairs, since the two sides of a pair come before others together
  let before (d e : Diagnostic × Diagnostic) : Bool := d.1.offset ≤ e.1.offset
  have hleft : ((ds.zip ds').mergeSort before).map Prod.fst = Diagnostic.sort ds := by
    have hmap : _ = Diagnostic.sort ((ds.zip ds').map Prod.fst) :=
      List.map_mergeSort (r := before) fun _ _ _ _ => rfl
    rwa [List.map_fst_zip (Nat.le_of_eq hlength)] at hmap
  have hright : ((ds.zip ds').mergeSort before).map Prod.snd = Diagnostic.sort ds' := by
    have hmap : _ = Diagnostic.sort ((ds.zip ds').map Prod.snd) :=
      List.map_mergeSort (r := before) fun _ hd _ he =>
        decide_eq_decide.mpr (r.le_iff (hzip hd).2.2 (hzip he).2.2)
    rwa [List.map_snd_zip (Nat.le_of_eq hlength.symm)] at hmap
  rw [← hleft,← hright]
  refine List.forall₂_map_left_iff.mpr (List.forall₂_map_right_iff.mpr (List.forall₂_same.mpr ?_))
  exact fun d hd => hzip (List.mem_mergeSort.mp hd)

end

/-- What two readings of a part come to, when each answers without its places. -/
lemma Agrees.cases {r : Relocation} {p p' : Parser Node} {s s' : State}
    (h : Agrees r (Node.bare <$> p) (Node.bare <$> p')) (hs : s.Alike r s') :
    (∃ e e', p s = .error e ∧ p' s' = .error e') ∨
      ∃ n t n' t', p s = .ok (n, t) ∧ p' s' = .ok (n', t') ∧ n.bare = n'.bare ∧ t.Alike r t' := by
  have h := h s s' hs
  simp only [Functor.map,StateT.map] at h
  cases hp : p s with
  | error e =>
    cases hp' : p' s' with
    | error e' => exact .inl ⟨e,e',rfl,rfl⟩
    | ok a' =>
      rw [hp,hp'] at h
      exact h.elim
  | ok a =>
    cases hp' : p' s' with
    | error e' =>
      rw [hp,hp'] at h
      exact h.elim
    | ok a' =>
      rw [hp,hp'] at h
      exact .inr ⟨a.1,a.2,a'.1,a'.2,rfl,rfl,h⟩

end Grammar

/-- Parses that are the same but for the places of the tokens of their texts: the nodes that were made have
the same numbers, layers and children, and messages stand in one order at tokens of the same numbers. -/
structure Parse.Relocated (text text' : List Char) (p q : Parse) : Prop where
  form : p.form = q.form
  success : p.success = q.success
  root : p.root.bare = q.root.bare
  nodes : p.nodes.map Node.bare = q.nodes.map Node.bare
  directives : p.directives.map Directive.bare = q.directives.map Directive.bare
  diagnostics : List.Forall₂ (fun d e => d.severity = e.severity ∧ d.message = e.message ∧
    Grammar.Corresponds text text' d.offset e.offset) p.diagnostics q.diagnostics

/-- Whether there is an error is seen in the severities alone. -/
lemma any_error_eq {ds ds' : List Diagnostic}
    (h : List.Forall₂ (fun d e : Diagnostic => d.severity = e.severity) ds ds') :
    ds.any (·.severity == .error) = ds'.any (·.severity == .error) := by
  induction h with
  | nil => rfl
  | cons h _ ih => rw [List.any_cons,List.any_cons,h,ih]

open Grammar

/-- The layout of a source does not matter. Two texts without faults, whose tokens differ in their places
only, are both read or both not, and if they are, to the same parse but for places. -/
theorem parse?_relocated (form : SourceForm) {source source' : String}
    (hfaults : (tokenize source.toList).faults = #[]) (hfaults' : (tokenize source'.toList).faults = #[])
    (htokens : (tokenize source.toList).tokens.map Token.bare =
      (tokenize source'.toList).tokens.map Token.bare) :
    Option.Rel (Parse.Relocated source.toList source'.toList) (parse? form source) (parse? form source') := by
  have hs := alike_initialState hfaults hfaults' htokens
  have hgo := uniform_readWithin (relocation source.toList source'.toList)
    (maxNesting + (initialState source.toList (tokenize source.toList)).rest.length + 1)
  have hread := hgo.readSource ⟨0, byteWidth source.toList⟩ ⟨0, byteWidth source'.toList⟩ form
  obtain ⟨e,e',he,he'⟩ | ⟨n,t,n',t',hn,hn',hroot,ht⟩ := hread.cases hs
  · have hleft : reading form source.toList = .error e := he
    have hright : reading form source'.toList = .error e' := by
      rw [hs.rest.length_eq] at he'
      exact he'
    simp [parse?,hleft,hright,Except.toOption]
  · have hleft : reading form source.toList = .ok (n, t) := hn
    have hright : reading form source'.toList = .ok (n', t') := by
      rw [hs.rest.length_eq] at hn'
      exact hn'
    have hsorted := sort_alike ht.diagnostics
    simp only [parse?,hleft,hright]
    refine .some ⟨rfl,congrArg (!·) (any_error_eq (hsorted.imp fun _ _ h => h.1)),hroot,ht.nodes,?_,hsorted⟩
    simpa using congrArg Array.toList ht.directives

/-- An operand is missing, before the same brace in both texts. -/
theorem parse?_relocated_comment : (tokenize "A\x7bb:c+\x7d".toList).faults = #[] ∧
    (tokenize " A \x7b b : c/**/+ \x7d ".toList).faults = #[] ∧
    (tokenize "A\x7bb:c+\x7d".toList).tokens.map Token.bare =
      (tokenize " A \x7b b : c/**/+ \x7d ".toList).tokens.map Token.bare ∧
    (parse? .qml "A\x7bb:c+\x7d").any (fun p => p.nodes.size = 8 ∧ p.diagnostics.length = 1) ∧
    Option.Rel (Parse.Relocated "A\x7bb:c+\x7d".toList " A \x7b b : c/**/+ \x7d ".toList)
      (parse? .qml "A\x7bb:c+\x7d") (parse? .qml " A \x7b b : c/**/+ \x7d ") := by
  have hfaults : (tokenize "A\x7bb:c+\x7d".toList).faults = #[] := by decide +kernel
  have hfaults' : (tokenize " A \x7b b : c/**/+ \x7d ".toList).faults = #[] := by decide +kernel
  have htokens : (tokenize "A\x7bb:c+\x7d".toList).tokens.map Token.bare =
      (tokenize " A \x7b b : c/**/+ \x7d ".toList).tokens.map Token.bare := by decide +kernel
  exact ⟨hfaults,hfaults',htokens,by decide +kernel,parse?_relocated .qml hfaults hfaults' htokens⟩

end QmlCodeModel
