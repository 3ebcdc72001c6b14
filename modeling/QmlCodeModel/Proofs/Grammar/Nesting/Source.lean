import QmlCodeModel.Proofs.Grammar.Nesting.Expression

/-! How deep statements, objects and whole sources are nested. -/
namespace QmlCodeModel.Grammar

section

variable {m depth : Nat} {go : Reader} (hgo : Confines m go)
include hgo

lemma nests_expressionStatement : Nests m depth (room depth + 2) (expressionStatement go) :=
  nests_start fun _ => (nests_expression hgo).bind fun _ h => nests_finishStatement h rfl (Nat.lt_succ_self _)

lemma nests_variableDeclarations : Nests m depth (room depth + 1) (variableDeclarations go) := by
  refine nests_collect (nests_start fun start => (nests_bindingTarget hgo).bind fun target htarget => ?_)
  cases target with
  | none => exact nests_pure (by simp)
  | some target =>
    refine (nests_defaultValue hgo).after htarget fun init h => ?_
    have hnode : Nests m depth (room depth + 1) (finish (.variableDeclaration target init) start) :=
      nests_finish h (by simp [Kind.children,nodes]) (Nat.lt_succ_self _)
    refine hnode.bind fun node h => (reading_eatPunct ",").nests_bind fun _ => nests_pure (by simpa using h)

lemma nests_variableStatement : Nests m depth (room depth + 2) (variableStatement go) := by
  refine nests_start fun _ => reading_variableKind.nests_bind fun kind => ?_
  refine (nests_variableDeclarations hgo).bind fun declarations h => ?_
  exact reading_endStatement.nests_bind fun _ => nests_finish h (by simp [Kind.children]) (Nat.lt_succ_self _)

lemma nests_body : Nests m depth (room depth + 1) (statement go) := (nests_statement hgo).mono (Nat.le_succ _)

lemma nests_ifStatement : Nests m depth (room depth + 2) (ifStatement go) := by
  refine nests_start fun _ => reading_skip.nests_bind fun _ => (nests_parenthesized hgo).bind fun test h => ?_
  refine (nests_body hgo).after h fun consequent h => ?_
  refine (nests_optionally (reading_eatName "else") (nests_body hgo)).after h fun alternate h => ?_
  exact nests_finish h (by simp [Kind.children]) (Nat.lt_succ_self _)

lemma nests_whileStatement : Nests m depth (room depth + 2) (whileStatement go) := by
  refine nests_start fun _ => reading_skip.nests_bind fun _ => (nests_parenthesized hgo).bind fun test h => ?_
  refine (nests_body hgo).after h fun body h => ?_
  exact nests_finish h (by simp [Kind.children]) (Nat.lt_succ_self _)

lemma nests_doStatement : Nests m depth (room depth + 2) (doStatement go) := by
  refine nests_start fun _ => reading_skip.nests_bind fun _ => (nests_body hgo).bind fun body h => ?_
  refine (reading_discard (reading_expectName "while") fun _ => rfl).nests_bind fun _ => ?_
  refine (nests_parenthesized hgo).after h fun test h => ?_
  refine (reading_discard (reading_eatPunct ";") fun _ => rfl).nests_bind fun _ => ?_
  exact nests_finish h (by simp [Kind.children]) (Nat.lt_succ_self _)

lemma nests_loopStart : Nests m depth (room depth + 2) (loopStart go) := by
  refine reading_peek.nests_bind fun t => nests_ite (fun _ => nests_pure (by simp)) fun _ => ?_
  refine (reading_ahead 1).nests_bind fun next => nests_ite (fun _ => ?_) fun _ => ?_
  · refine nests_start fun _ => reading_variableKind.nests_bind fun kind => ?_
    refine (nests_withIn false (nests_variableDeclarations hgo)).bind fun declarations h => ?_
    exact nests_map (nests_finish h (by simp [Kind.children]) (Nat.lt_succ_self _)) fun n => by simp
  · exact nests_map (nests_withIn false ((nests_expression hgo).mono (Nat.le_succ _))) fun n => by simp

lemma nests_loopPart (close : String) : Nests m depth (room depth + 2) (loopPart go close) := by
  refine (reading_atPunct close).nests_bind fun _ => nests_ite (fun _ => nests_pure (by simp)) fun _ => ?_
  exact nests_map ((nests_expressionWithIn hgo).mono (Nat.le_succ _)) fun n => by simp

lemma nests_forEach {start : Nat} {kind : ForEachKind} {left : Node} (h : Shallow (room depth + 2) [left]) :
    Nests m depth (room depth + 3) (forEach go start kind left) := by
  refine ((nests_expressionWithIn hgo).mono (Nat.le_succ _)).after h fun right h => ?_
  refine (reading_punct ")").nests_bind fun _ => ?_
  refine ((nests_body hgo).mono (Nat.le_succ _)).after h fun body h => ?_
  exact nests_finish h (by simp [Kind.children]) (Nat.lt_succ_self _)

lemma nests_forLoop {start : Nat} {init : Option Node} (h : Shallow (room depth + 2) (nodes init)) :
    Nests m depth (room depth + 3) (forLoop go start init) := by
  refine (reading_punct ";").nests_bind fun _ => (nests_loopPart hgo ";").after h fun test h => ?_
  refine (reading_punct ";").nests_bind fun _ => (nests_loopPart hgo ")").after h fun step h => ?_
  refine (reading_punct ")").nests_bind fun _ => ?_
  refine ((nests_body hgo).mono (Nat.le_succ _)).after h fun body h => ?_
  exact nests_finish h (by simp [Kind.children]) (Nat.lt_succ_self _)

lemma nests_forStatement : Nests m depth (room depth + 3) (forStatement go) := by
  refine nests_start fun _ => reading_skip.nests_bind fun _ => (reading_punct "(").nests_bind fun _ => ?_
  refine (nests_loopStart hgo).bind fun init h => ?_
  cases init with
  | none => exact nests_forLoop hgo h
  | some left =>
    refine reading_loopWord.nests_bind fun kind => ?_
    cases kind with
    | none => exact nests_forLoop hgo h
    | some kind => exact nests_forEach hgo (by simpa using h)

omit hgo in
lemma nests_jumpStatement {most : Nat} {layer : Option Ident → Kind Node} (h : ∀ l, (layer l).children = []) :
    Nests m depth most (jumpStatement layer) :=
  nests_start fun _ => reading_skip.nests_bind fun _ => reading_jumpLabel.nests_bind fun label =>
    reading_endStatement.nests_bind fun _ => nests_bare (h label)

lemma nests_returnStatement : Nests m depth (room depth + 2) (returnStatement go) := by
  have hargument : Nests m depth (room depth + 1) (returnArgument go) :=
    reading_peek.nests_bind fun t => nests_ite (fun _ => nests_pure (by simp)) fun _ =>
      nests_map (nests_expression hgo) fun n => by simp
  refine nests_start fun _ => reading_skip.nests_bind fun _ => hargument.bind fun argument h => ?_
  exact reading_endStatement.nests_bind fun _ => nests_finish h (by simp [Kind.children]) (Nat.lt_succ_self _)

lemma nests_throwStatement : Nests m depth (room depth + 2) (throwStatement go) := by
  refine nests_start fun _ => reading_skip.nests_bind fun _ => reading_peek.nests_bind fun t => ?_
  refine (reading_reportIf _ _).nests_bind fun _ => (nests_expression hgo).bind fun argument h => ?_
  exact reading_endStatement.nests_bind fun _ => nests_finish h rfl (Nat.lt_succ_self _)

omit hgo in
lemma nests_debuggerStatement {most : Nat} : Nests m depth most debuggerStatement :=
  nests_start fun _ => reading_skip.nests_bind fun _ => reading_endStatement.nests_bind fun _ => nests_bare rfl

lemma nests_caseBody {start : Nat} {test : Option Node} (h : Shallow (room depth + 1) (nodes test)) :
    Nests m depth (room depth + 2) (caseBody go start test) := by
  refine (reading_punct ":").nests_bind fun _ => ?_
  refine ((nests_statementsUntil hgo).mono (Nat.le_succ _)).after h fun body h => ?_
  have hnode : Nests m depth (room depth + 2) (finish (.case test body) start) :=
    nests_finish h (by simp [Kind.children]) (Nat.lt_succ_self _)
  exact hnode.bind fun node h => nests_pure (by simpa using h)

lemma nests_switchCase : Nests m depth (room depth + 2) (switchCase go) := by
  refine nests_start fun _ => (reading_eatName "case").nests_bind fun _ => nests_ite (fun _ => ?_) fun _ => ?_
  · exact (nests_expressionWithIn hgo).bind fun test h => nests_caseBody hgo (by simpa using h)
  refine (reading_eatName "default").nests_bind fun _ => nests_ite (fun _ => ?_) fun _ => ?_
  · exact nests_caseBody hgo (by simp)
  · exact (reading_reportHere _).nests_bind fun _ => reading_skip.nests_bind fun _ => nests_pure (by simp)

lemma nests_switchStatement : Nests m depth (room depth + 3) (switchStatement go) := by
  refine nests_start fun _ => reading_skip.nests_bind fun _ => ?_
  refine ((nests_parenthesized hgo).mono (Nat.le_succ _)).bind fun discriminant h => ?_
  refine (reading_punct "\x7b").nests_bind fun _ => ?_
  refine (nests_collectUntil (nests_switchCase hgo)).after h fun cases h => ?_
  refine (reading_punct "\x7d").nests_bind fun _ => nests_finish h ?_ (Nat.lt_succ_self _)
  simp [Kind.children]

lemma nests_catchClause : Nests m depth (room depth + 1) (catchClause go) := by
  have hparameter : Nests m depth (room depth + 1) (catchParameter go) := by
    refine (reading_eatPunct "(").nests_bind fun _ => nests_ite (fun _ => ?_) fun _ => nests_pure (by simp)
    refine ((nests_bindingTarget hgo).mono (Nat.le_succ _)).bind fun param h => ?_
    exact (reading_punct ")").nests_bind fun _ => nests_pure h
  refine (reading_eatName "catch").nests_bind fun _ => nests_ite (fun _ => ?_) fun _ => nests_pure (by simp)
  refine hparameter.bind fun param h => (nests_block hgo).after h fun handler h => nests_pure ?_
  simpa using h

lemma nests_tryStatement : Nests m depth (room depth + 2) (tryStatement go) := by
  refine nests_start fun _ => reading_skip.nests_bind fun _ => (nests_block hgo).bind fun body h => ?_
  refine (nests_catchClause hgo).after h fun clause h => ?_
  obtain ⟨param,handler⟩ := clause
  refine (nests_optionally (reading_eatName "finally") (nests_block hgo)).after h fun finalizer h => ?_
  refine (reading_reportIf _ _).nests_bind fun _ => nests_finish h ?_ (Nat.lt_succ_self _)
  simp [Kind.children,nodes_parameter]

lemma nests_classDeclaration : Nests m depth (room depth + 4) (classDeclaration go) :=
  nests_start fun _ => (nests_classParts hgo true).bind fun _ h => nests_finish h rfl (Nat.lt_succ_self _)

lemma nests_labelledStatement : Nests m depth (room depth + 2) (labelledStatement go) :=
  nests_start fun _ => reading_bump.nests_bind fun _ => reading_skip.nests_bind fun _ =>
    (nests_body hgo).bind fun _ h => nests_finish h rfl (Nat.lt_succ_self _)

lemma nests_namedStatement (t next : Token) : Nests m depth (room depth + 4) (namedStatement go t next) := by
  have hfunction : Nests m depth (room depth + 4) (functionDeclaration go) :=
    (nests_functionDeclaration hgo).mono (by omega)
  unfold namedStatement
  refine nests_ite (fun _ => (nests_variableStatement hgo).mono (by omega)) fun _ => ?_
  split
  · exact (nests_ifStatement hgo).mono (by omega)
  · exact (nests_forStatement hgo).mono (by omega)
  · exact (nests_whileStatement hgo).mono (by omega)
  · exact (nests_doStatement hgo).mono (by omega)
  · exact nests_jumpStatement fun _ => rfl
  · exact nests_jumpStatement fun _ => rfl
  · exact (nests_returnStatement hgo).mono (by omega)
  · exact (nests_throwStatement hgo).mono (by omega)
  · exact (nests_switchStatement hgo).mono (by omega)
  · exact (nests_tryStatement hgo).mono (by omega)
  · exact nests_debuggerStatement
  · exact hfunction
  · exact nests_classDeclaration hgo
  · refine nests_ite (fun _ => hfunction) fun _ => ?_
    refine nests_ite (fun _ => (nests_labelledStatement hgo).mono (by omega)) fun _ => ?_
    exact (nests_expressionStatement hgo).mono (by omega)

lemma nests_readStatement : Nests m depth (room depth + 4) (readStatement go) := by
  refine reading_peek.nests_bind fun t => nests_ite (fun _ => ?_) fun _ => ?_
  · exact (reading_ahead 1).nests_bind fun next => nests_namedStatement hgo t next
  refine nests_ite (fun _ => (nests_block hgo).mono (by omega)) fun _ => nests_ite (fun _ => ?_) fun _ => ?_
  · exact nests_leaf rfl
  · exact (nests_expressionStatement hgo).mono (by omega)

end

end QmlCodeModel.Grammar

/-! Objects and whole sources, where the recursion of the goals is closed. -/
namespace QmlCodeModel.Grammar

section

variable {m depth : Nat} {go : Reader}

/-! Members without objects. -/

lemma nests_signalMember {most : Nat} : Nests m depth most signalMember := by
  refine nests_start fun _ => reading_skip.nests_bind fun _ => reading_identifier.nests_bind fun name => ?_
  cases name with
  | none => exact nests_bare rfl
  | some name =>
    refine reading_signalParameters.nests_bind fun parameters => reading_endStatement.nests_bind fun _ => ?_
    exact nests_bare rfl

lemma nests_enumDeclaration {most : Nat} : Nests m depth most enumDeclaration := by
  refine nests_start fun _ => reading_skip.nests_bind fun _ => reading_identifier.nests_bind fun name => ?_
  cases name with
  | none => exact nests_bare rfl
  | some name =>
    refine (reading_punct "\x7b").nests_bind fun _ => ?_
    refine (reading_commaSeparated "\x7d" reading_enumMember).nests_bind fun members => ?_
    exact (reading_punct "\x7d").nests_bind fun _ => nests_bare rfl

lemma nests_requiredMember {most start : Nat} {modifiers : MemberModifiers} :
    Nests m depth most (requiredMember start modifiers) := by
  refine (reading_requiredName modifiers).nests_bind fun name => ?_
  cases name with
  | none => exact (reading_reportHere _).nests_bind fun _ => nests_bare rfl
  | some name => exact reading_endStatement.nests_bind fun _ => nests_bare rfl

lemma nests_sourceElement {most more : Nat} {element : Parser Node} (h : Nests m depth most element)
    (hlt : most < more) : Nests m depth more (sourceElement element) :=
  h.bind fun _ hnode => nests_make hnode rfl hlt

/-! Objects. -/

lemma nests_objectDefinition {most : Nat} (h : Nests m depth most (initializer go)) :
    Nests m depth (most + 1) (objectDefinition go) :=
  nests_start fun _ => reading_qualifiedName.nests_bind fun _ => h.bind fun _ hinit =>
    nests_finish hinit rfl (Nat.lt_succ_self _)

section

variable (hgo : Confines m go)
include hgo

lemma nests_objectArray : Nests m depth (room depth + 1) (objectArray go) := by
  have hmember : Nests m depth (room depth + 1) (arrayMember go) := by
    refine nests_upcoming fun tokens => nests_ite (fun _ => ?_) fun _ => ?_
    · exact (nests_objectDefinition (nests_initializer hgo)).bind fun n h => nests_pure (by simpa using h)
    · exact (reading_reportHere _).nests_bind fun _ => nests_pure (by simp)
  refine nests_start fun _ => reading_skip.nests_bind fun _ => ?_
  refine (nests_commaSeparated hmember).bind fun members h => ?_
  exact (reading_punct "]").nests_bind fun _ => reading_get.nests_bind fun s => nests_pure (by simpa using h)

lemma nests_script : Nests m depth (room depth + 2) (script go) := by
  refine reading_peek.nests_bind fun t => nests_ite (fun _ => ?_) fun _ => nests_expressionStatement hgo
  exact (nests_statement hgo).mono (by omega)

lemma nests_firstValue (name : Ident) : Nests m depth (room depth + 2) (firstValue go name) := by
  refine (reading_eatPunct ":").nests_bind fun _ => nests_ite (fun _ => ?_) fun _ => ?_
  · refine nests_upcoming fun tokens => nests_ite (fun _ => ?_) fun _ => nests_ite (fun _ => ?_) fun _ => ?_
    · refine ((nests_objectDefinition (nests_initializer hgo)).mono (Nat.le_succ _)).bind fun n h => ?_
      exact nests_pure (by simpa [nodes] using h)
    · refine (nests_objectArray hgo).bind fun r h => ?_
      obtain ⟨members,brackets⟩ := r
      have harray : Nests m depth (room depth + 2) (make brackets (.arrayBinding ⟨[name]⟩ members brackets)) :=
        nests_make h (by simp [Kind.children]) (Nat.lt_succ_self _)
      exact harray.bind fun array h => nests_pure (by simpa [nodes] using h)
    · exact (nests_script hgo).bind fun n h => nests_pure (by simpa [nodes] using h)
  · exact reading_endStatement.nests_bind fun _ => nests_pure (by simp [nodes])

lemma nests_publicMember : Nests m depth (room depth + 3) (publicMember go) := by
  have hproperty {start : Nat} {modifiers : MemberModifiers} :
      Nests m depth (room depth + 3) (propertyMember go start modifiers) := by
    refine reading_declaredType.nests_bind fun type => reading_identifier.nests_bind fun name => ?_
    cases name with
    | none => exact nests_bare rfl
    | some name =>
      exact (nests_firstValue hgo name).bind fun value h => nests_finish h rfl (Nat.lt_succ_self _)
  refine nests_start fun _ => reading_memberModifiers.nests_bind fun modifiers => ?_
  refine (reading_eatName "property").nests_bind fun _ => nests_ite (fun _ => hproperty) fun _ => ?_
  exact nests_requiredMember

lemma nests_boundValue {start : Nat} {name : QualifiedName} :
    Nests m depth (room depth + 3) (boundValue go start name) := by
  refine nests_upcoming fun tokens => nests_ite (fun _ => ?_) fun _ => nests_ite (fun _ => ?_) fun _ => ?_
  · exact reading_qualifiedName.nests_bind fun _ => (nests_initializer hgo).bind fun _ h =>
      nests_finish h rfl (by omega)
  · refine (nests_objectArray hgo).bind fun r h => ?_
    obtain ⟨members,brackets⟩ := r
    exact nests_finish h (by simp [Kind.children]) (by omega)
  · exact (nests_script hgo).bind fun value h => nests_make h rfl (Nat.lt_succ_self _)

lemma nests_bindingMember : Nests m depth (room depth + 3) (bindingMember go) := by
  refine nests_start fun _ => reading_qualifiedName.nests_bind fun name => ?_
  refine (reading_atName "on").nests_bind fun _ => (reading_ahead 1).nests_bind fun next => ?_
  refine nests_ite (fun _ => reading_skip.nests_bind fun _ => ?_) fun _ => ?_
  · exact reading_qualifiedName.nests_bind fun _ => (nests_initializer hgo).bind fun _ h =>
      nests_finish h rfl (by omega)
  refine (reading_atPunct "\x7b").nests_bind fun _ => nests_ite (fun _ => ?_) fun _ => ?_
  · exact (nests_initializer hgo).bind fun _ h => nests_finish h rfl (by omega)
  refine (reading_expectPunct ":").nests_bind fun _ => nests_ite (fun _ => nests_boundValue hgo) fun _ => ?_
  exact nests_bare rfl

lemma nests_namedMember (t next afterNext : Token) :
    Nests m depth (room depth + 3) (namedMember go t next afterNext) := by
  have hfunction : Nests m depth (room depth + 3) (sourceElement (functionDeclaration go)) :=
    nests_sourceElement (nests_functionDeclaration hgo) (Nat.lt_succ_self _)
  refine nests_ite (fun _ => nests_publicMember hgo) fun _ => ?_
  refine nests_ite (fun _ => nests_signalMember) fun _ => ?_
  refine nests_ite (fun _ => nests_enumDeclaration) fun _ => nests_ite (fun _ => hfunction) fun _ => ?_
  refine nests_ite (fun _ => hfunction) fun _ => nests_ite (fun _ => ?_) fun _ => nests_bindingMember hgo
  exact nests_sourceElement (nests_variableStatement hgo) (Nat.lt_succ_self _)

lemma nests_readInitializer : Nests m depth (room depth + 4) (readInitializer go) := by
  have hmember : Nests m depth (room depth + 3) (objectMember go) := by
    refine reading_peek.nests_bind fun t => nests_ite (fun _ => ?_) fun _ => ?_
    · refine (reading_ahead 1).nests_bind fun next => (reading_ahead 2).nests_bind fun afterNext => ?_
      exact (nests_namedMember hgo t next afterNext).bind fun n h => nests_pure (by simpa using h)
    · exact (reading_reportHere _).nests_bind fun _ => nests_pure (by simp)
  refine nests_start fun _ => (reading_punct "\x7b").nests_bind fun _ => ?_
  refine (nests_collectUntil (nests_everyRound hmember)).bind fun members h => ?_
  refine (reading_punct "\x7d").nests_bind fun _ => nests_finish h ?_ (Nat.lt_succ_self _)
  simp [Kind.children]

/-- Every goal puts its own layers around the goals one level deeper. -/
lemma nests_readGoal (goal : Goal) : Nests m depth (room depth + goal.layers) (readGoal go goal) := by
  cases goal with
  | statement => exact nests_readStatement hgo
  | assignment => exact nests_readAssignment hgo
  | unary => exact nests_readUnary hgo
  | newExpression => exact nests_readNew hgo
  | primary => exact nests_readPrimary hgo
  | initializer => exact nests_readInitializer hgo
  | binary above => exact nests_readBinary hgo above

end

theorem confines_readWithin (m : Nat) : Confines m (readWithin m) := by
  induction m with
  | zero => exact ⟨obeys_readWithin 0,fun _ _ _ hbudget => absurd hbudget (Nat.not_lt_zero _)⟩
  | succ m ih =>
    refine ⟨obeys_readWithin (m + 1),fun goal s hs hbudget n t h => ?_⟩
    have hwithin : s.Within m := ⟨hs,Nat.le_of_lt_succ hbudget⟩
    have hnests := (nests_readGoal ih goal s hwithin rfl n t h).2.2
    simpa using hnests

/-! Whole sources. -/

lemma nests_header {most : Nat} : Nests m depth most header := by
  have himport : Nests m depth most importHeader := by
    refine nests_start fun start => (reading_place start).nests_bind fun _ => ?_
    refine reading_skip.nests_bind fun _ => reading_importTarget.nests_bind fun target => ?_
    refine reading_importVersion.nests_bind fun version => ?_
    refine reading_importQualifier.nests_bind fun qualifier => ?_
    exact reading_endStatement.nests_bind fun _ => (reading_announce _).nests_bind fun _ => nests_bare rfl
  have hpragma : Nests m depth most pragmaHeader := by
    refine nests_start fun _ => reading_skip.nests_bind fun _ => reading_identifier.nests_bind fun name => ?_
    refine reading_endStatement.nests_bind fun _ => nests_bare ?_
    cases name <;> rfl
  refine reading_peek.nests_bind fun t => (reading_ahead 1).nests_bind fun next => ?_
  refine nests_ite (fun _ => ?_) fun _ => ?_
  · exact himport.bind fun n h => nests_pure (by simpa using h)
  refine nests_ite (fun _ => ?_) fun _ => nests_pure (by simp)
  exact hpragma.bind fun n h => nests_pure (by simpa using h)

lemma nests_rootObject {most : Nat} (h : Nests m depth most (initializer go)) :
    Nests m depth (most + 1) (rootObject go) := by
  refine nests_upcoming fun tokens => nests_ite (fun _ => ?_) fun _ => ?_
  · refine (nests_objectDefinition h).bind fun n hn => (reading_refuseRest _).nests_bind fun _ => ?_
    exact nests_pure (by simpa using hn)
  · exact (reading_reportHere _).nests_bind fun _ => reading_skipRest.nests_bind fun _ => nests_pure (by simp)

end

end Grammar

/-- How deep a source of a form can be nested: sixteen layers for each level of its goals, and one more around
the expressions of a row that is a source by itself. -/
def SourceForm.deepest : SourceForm → Nat
  | .qml | .program => 16 * maxNesting
  | .expression => 16 * maxNesting + 1

namespace Grammar

lemma nests_readSource {m : Nat} {go : Reader} (hgo : Confines m go) (whole : Span) (form : SourceForm) :
    Nests m 0 form.deepest (readSource go whole form) := by
  have hinitializer : Nests m 0 (room 0 - 12) (initializer go) := nests_nested hgo .initializer (by decide)
  have hstatement : Nests m 0 (room 0 - 12) (statement go) := nests_nested hgo .statement (by decide)
  cases form with
  | qml =>
    have hheaders : Nests m 0 (room 0 - 12 + 1) (collect header) := nests_collect nests_header
    refine hheaders.bind fun headers hheaders => ?_
    refine (nests_rootObject hinitializer).after hheaders fun members h => ?_
    exact nests_make h (by simp [Kind.children]) (by decide)
  | program =>
    have hdirectives : Reading m (collect directive) := reading_collect reading_directive directive_advances
    refine (reading_discard hdirectives fun _ => by simp).nests_bind fun _ => ?_
    refine (nests_collectUntil (nests_everyRound (nests_one hstatement))).bind fun elements h => ?_
    exact nests_make h (by simp [Kind.children]) (by decide)
  | expression =>
    have hroot : Nests m 0 (room 0 + 1) (expressionOrError go) :=
      reading_atEnd.nests_bind fun _ => nests_ite (fun _ => nests_missingPrimary _) fun _ =>
        nests_expression hgo
    refine hroot.bind fun root h => reading_atEnd.nests_bind fun _ => ?_
    exact (reading_reportIf _ _).nests_bind fun _ => nests_pure h

theorem nesting_of_parse? {form : SourceForm} {source : String} {p : Parse}
    (h : parse? form source = some p) : p.root.nesting ≤ form.deepest := by
  obtain ⟨root,t,hreading,hroot,-⟩ := reading_of_parse? h
  have hdepth : (opening source.toList).depth = 0 := (opening_follows source.toList).depth
  have hnests := nests_readSource (confines_readWithin _) ⟨0, byteWidth source.toList⟩ form _
    (opening_within source.toList) hdepth root t hreading
  rw [hroot]
  simpa using hnests.2.2

end Grammar

end QmlCodeModel
