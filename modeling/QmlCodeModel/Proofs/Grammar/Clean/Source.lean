import QmlCodeModel.Grammar.Member
import QmlCodeModel.Grammar.Statement
import QmlCodeModel.Proofs.Grammar.Clean.Expression
import QmlCodeModel.Proofs.Grammar.Source

/-! Statements close the brackets which they open, and take a token, unless an error is reported. So do the
objects of a QML document and their members, whose nodes may be of any kind. A whole source without an error is
then read to its end. -/
namespace QmlCodeModel.Grammar

section

variable {only : Bool} {go : Reader} {m : Stretch} {t : State} (hgo : Faithful only go)
include hgo

lemma Faithful.expressionStatement : Consumes only (expressionStatement go) := fun _ _ =>
  leads_start (hgo.expression.bind fun _ _ => leads_finishStatement rfl)

/-! Declarations of variables. -/

lemma Faithful.variableDeclaration : Consumes only (variableDeclaration go) := by
  refine fun m t => leads_start (Leads.marked fun _ => hgo.bindingTarget.bind fun target _ => ?_)
  cases target with
  | none => exact leads_pure
  | some target =>
    refine (keeps_defaultValue hgo).bind fun _ _ => (leads_marked rfl rfl).bind fun _ _ => ?_
    exact (keeps_eatPunct (by decide)).bind fun _ _ => leads_pure

lemma keeps_variableDeclarations : Keeps only (variableDeclarations go) :=
  hgo.variableDeclaration.keeps.collect

omit hgo in
lemma leads_variableKind (h : t.peek.Inner) : Leads only m variableKind m.take t :=
  leads_bump h leads_pure

lemma leads_variableStatement (h : t.peek.kind = .name) :
    Leads only m (variableStatement go) m.take t := by
  refine leads_start (Leads.marked fun _ => (leads_variableKind (.of_name h)).bind fun _ _ => ?_)
  refine (keeps_variableDeclarations hgo).bind fun _ _ => ?_
  exact keeps_endStatement.bind fun _ _ => leads_marked rfl rfl

omit hgo in
lemma kind_of_startsVariables {next : Token} (h : startsVariables t.peek next) :
    t.peek.kind = .name := by
  simp only [startsVariables,Token.isName,Bool.or_eq_true,Bool.and_eq_true,beq_iff_eq] at h
  obtain (h | h) | h := h
  · exact h.1
  · exact h.1
  · exact h.1.1

/-! Conditions and loops. -/

lemma leads_ifStatement (h : t.peek.Inner) : Leads only m (ifStatement go) m.take t := by
  refine leads_start (leads_skip h (hgo.parenthesized.keeps.bind fun _ _ => ?_))
  refine hgo.statement.keeps.bind fun _ _ => ?_
  exact ((keeps_eatName "else").optionally hgo.statement.keeps).bind fun _ _ => leads_layer rfl

lemma leads_whileStatement (h : t.peek.Inner) : Leads only m (whileStatement go) m.take t := by
  refine leads_start (leads_skip h (hgo.parenthesized.keeps.bind fun _ _ => ?_))
  exact hgo.statement.keeps.bind fun _ _ => leads_layer rfl

lemma leads_doStatement (h : t.peek.Inner) : Leads only m (doStatement go) m.take t := by
  refine leads_start (leads_skip h (hgo.statement.keeps.bind fun _ _ => ?_))
  refine (consumes_expectName "while").keeps.bind fun _ _ => ?_
  refine hgo.parenthesized.keeps.bind fun _ _ => ?_
  exact (keeps_eatPunct (by decide)).discard.bind fun _ _ => leads_layer rfl

lemma keeps_loopStart : Keeps only (loopStart go) := by
  refine fun m t => leads_peek (leads_ite (fun _ => leads_pure) fun _ => leads_ahead (leads_ite
    (fun h => ?_) fun _ => (hgo.expression.keeps.withIn false m t).map _))
  refine leads_start (Leads.weaken (Leads.marked fun _ => ?_))
  refine (leads_variableKind (.of_name (kind_of_startsVariables h))).bind fun _ _ => ?_
  exact ((keeps_variableDeclarations hgo).withIn false).bind fun _ _ => (leads_marked rfl rfl).map _

omit hgo in
lemma keeps_loopWord : Keeps only loopWord := fun _ _ => (keeps_eatName "of").bind fun _ _ =>
  leads_ite (fun _ => leads_pure) fun _ => (keeps_eatName "in").bind fun _ _ =>
    leads_ite (fun _ => leads_pure) fun _ => leads_pure

/-- The opening parenthesis has been taken before. -/
lemma leads_forEach (start : Nat) (kind : ForEachKind) (left : Node) :
    Leads only (m.enter .round) (forEach go start kind left) m.take t :=
  leads_upTo .round hgo.expressionWithIn.keeps fun _ _ =>
    hgo.statement.keeps.bind fun _ _ => leads_layer rfl

lemma keeps_loopPart (close : String) : Keeps only (loopPart go close) := fun m t => leads_atPunct
  (leads_ite (fun _ => leads_pure) fun _ => (hgo.expressionWithIn.keeps m t).map _)

/-- The opening parenthesis has been taken before. -/
lemma leads_forLoop (start : Nat) (init : Option Node) :
    Leads only (m.enter .round) (forLoop go start init) m.take t := by
  refine (consumes_expectPunct (by decide)).keeps.bind fun _ _ => ?_
  refine (keeps_loopPart hgo ";").bind fun _ _ => ?_
  refine (consumes_expectPunct (by decide)).keeps.bind fun _ _ => ?_
  refine leads_upTo .round (keeps_loopPart hgo ")") fun _ _ => ?_
  exact hgo.statement.keeps.bind fun _ _ => leads_layer rfl

lemma leads_forStatement (h : t.peek.Inner) : Leads only m (forStatement go) m.take t := by
  refine leads_start (leads_skip h ((leads_expectOpen .round).bind fun _ _ => ?_))
  refine (keeps_loopStart hgo).bind fun left u => ?_
  cases left with
  | none => exact leads_forLoop hgo _ none
  | some left =>
    refine keeps_loopWord.bind fun word u => ?_
    cases word with
    | none => exact leads_forLoop hgo _ (some left)
    | some kind => exact leads_forEach hgo _ kind left

/-! Jumps. -/

omit hgo in
lemma keeps_jumpLabel : Keeps only jumpLabel := fun m t => leads_peek (leads_ite
  (fun _ => consumes_identifier.keeps m t) fun _ => leads_pure)

omit hgo in
lemma leads_jumpStatement {layer : Option Ident → Kind Node} (h : t.peek.Inner)
    (hlayer : ∀ label, (layer label).isScript) : Leads only m (jumpStatement layer) m.take t :=
  leads_start (Leads.marked fun _ => leads_skip h (keeps_jumpLabel.bind fun label _ =>
    keeps_endStatement.bind fun _ _ => leads_marked (hlayer label) rfl))

lemma keeps_returnArgument : Keeps only (returnArgument go) := fun m t => leads_peek (leads_ite
  (fun _ => leads_pure) fun _ => (hgo.expression.keeps m t).map _)

lemma leads_returnStatement (h : t.peek.Inner) : Leads only m (returnStatement go) m.take t :=
  leads_start (Leads.marked fun _ => leads_skip h ((keeps_returnArgument hgo).bind fun _ _ =>
    keeps_endStatement.bind fun _ _ => leads_marked rfl rfl))

lemma leads_throwStatement (h : t.peek.Inner) : Leads only m (throwStatement go) m.take t := by
  refine leads_start (leads_skip h (leads_peek ((keeps_reportIf _ _).bind fun _ _ => ?_)))
  exact hgo.expression.keeps.bind fun _ _ => keeps_endStatement.bind fun _ _ => leads_layer rfl

omit hgo in
lemma leads_debuggerStatement (h : t.peek.Inner) : Leads only m debuggerStatement m.take t :=
  leads_start (Leads.marked fun _ => leads_skip h (keeps_endStatement.bind fun _ _ => leads_marked rfl rfl))

/-! Switches and handlers of exceptions. -/

lemma leads_caseBody (test : Option Node) (hpassed : m.passed) :
    Leads only m (caseBody go m.mark test) m t := by
  refine (consumes_expectPunct (by decide)).keeps.bind fun _ _ => ?_
  exact (keeps_statementsUntil hgo _).bind fun _ _ => (leads_marked rfl hpassed).bind fun _ _ => leads_pure

lemma Faithful.switchCase : Consumes only (switchCase go) := by
  refine fun m t => leads_start (Leads.marked fun m => leads_eat inner_isName (fun _ => ?_) fun _ => ?_)
  · exact hgo.expressionWithIn.keeps.bind fun test _ => leads_caseBody hgo (some test) rfl
  · refine leads_eat inner_isName (fun _ => leads_caseBody hgo none rfl) fun _ => ?_
    exact leads_reportHere fun _ hspoiled => leads_skip_spoiled hspoiled leads_pure

lemma leads_switchStatement (h : t.peek.Inner) : Leads only m (switchStatement go) m.take t := by
  refine leads_start (leads_skip h (hgo.parenthesized.keeps.bind fun _ _ => ?_))
  exact (leads_between .curly hgo.switchCase.keeps.collectUntil fun _ _ => leads_layer rfl).weaken

lemma keeps_catchParameter : Keeps only (catchParameter go) := by
  refine fun m t => leads_eatOpen .round (fun u => ?_) leads_pure
  exact (leads_upTo .round hgo.bindingTarget.keeps fun _ _ => leads_pure).weaken

lemma keeps_catchClause : Keeps only (catchClause go) := fun _ _ => (keeps_eatName "catch").bind
  fun _ _ => leads_ite (fun _ => (keeps_catchParameter hgo).bind fun _ _ =>
    hgo.block.keeps.bind fun _ _ => leads_pure) fun _ => leads_pure

lemma leads_tryStatement (h : t.peek.Inner) : Leads only m (tryStatement go) m.take t := by
  refine leads_start (leads_skip h (hgo.block.keeps.bind fun _ _ => ?_))
  refine (keeps_catchClause hgo).bind fun clause _ => ?_
  refine ((keeps_eatName "finally").optionally hgo.block.keeps).bind fun finalizer _ => ?_
  exact (keeps_reportIf _ _).bind fun _ _ => leads_layer rfl

/-! Statements of any form. -/

lemma leads_classDeclaration (h : t.peek.kind = .name) :
    Leads only m (classDeclaration go) m.take t :=
  leads_start (Leads.marked fun _ => (leads_classParts hgo true h).bind fun _ _ => leads_marked rfl rfl)

lemma leads_labelledStatement (h : t.peek.kind = .name) (hcolon : (t.ahead 1).isPunct ":") :
    Leads only m (labelledStatement go) m.take t := by
  rw [← t.peek_advance] at hcolon
  refine leads_start (leads_bump (.of_name h) (leads_skip (.of_isPunct hcolon (by decide)) ?_))
  exact hgo.statement.keeps.bind fun _ _ => leads_layer rfl

lemma leads_namedStatement (h : t.peek.kind = .name) :
    Leads only m (namedStatement go t.peek (t.ahead 1)) m.take t := by
  have hinner : t.peek.Inner := .of_name h
  refine leads_ite (fun _ => leads_variableStatement hgo h) fun _ => ?_
  split
  · exact leads_ifStatement hgo hinner
  · exact leads_forStatement hgo hinner
  · exact leads_whileStatement hgo hinner
  · exact leads_doStatement hgo hinner
  · exact leads_jumpStatement hinner fun _ => rfl
  · exact leads_jumpStatement hinner fun _ => rfl
  · exact leads_returnStatement hgo hinner
  · exact leads_throwStatement hgo hinner
  · exact leads_switchStatement hgo hinner
  · exact leads_tryStatement hgo hinner
  · exact leads_debuggerStatement hinner
  · rename_i htext
    exact leads_functionDeclaration hgo (startsFunction_of h rfl (.inl (by simp [htext])))
  · exact leads_classDeclaration hgo h
  · refine leads_ite (fun hasync => ?_) fun _ => leads_ite (fun hcolon => ?_) fun _ => ?_
    · exact leads_functionDeclaration hgo (startsFunction_of h rfl (.inr hasync))
    · rw [Bool.and_eq_true] at hcolon
      exact leads_labelledStatement hgo h hcolon.1
    · exact hgo.expressionStatement m t

lemma consumes_readStatement : Consumes only (readStatement go) := by
  refine fun m t => leads_peek (leads_ite (fun h => ?_) fun _ => leads_ite (fun _ => ?_) fun _ =>
    leads_ite (fun h => ?_) fun _ => hgo.expressionStatement m t)
  · exact leads_ahead (leads_namedStatement hgo (by simpa using h))
  · exact hgo.block m t
  · exact leads_leaf (.of_isPunct h (by decide)) rfl

end

section

variable {go : Reader} {m : Stretch} {t : State}

/-- A layer that is no error, around something. -/
lemma leads_part {kind : Kind Node} {offset : Nat} (h : kind ≠ .error)
    (hparts : kind.children ≠ [] ∨ kind.isFrame) : Leads false m (finish kind offset) m t :=
  leads_finish nofun h hparts

/-- A layer that is no error, and may be one without parts. -/
lemma leads_markedPart {kind : Kind Node} (h : kind ≠ .error) (hpassed : m.passed) :
    Leads false m (finish kind m.mark) m t := leads_finishMarked nofun h hpassed

/-- An error node where a name is missing, which has been reported. -/
lemma leads_nameless {offset : Nat} (hspoiled : t.diagnostics ≠ #[]) :
    Leads false m (finish .error offset) m t := leads_finishError hspoiled

/-! Names and types. -/

lemma keeps_nameTail : Keeps false nameTail := by
  refine fun m t => leads_peek (leads_ahead (leads_ite (fun h => ?_) fun _ => leads_pure))
  simp only [Bool.and_eq_true,beq_iff_eq] at h
  refine Leads.weaken (leads_skip (.of_isPunct h.1 (by decide)) (Leads.weaken ?_))
  exact leads_bump (.of_name (t.peek_advance ▸ h.2)) leads_pure

lemma consumes_qualifiedName : Consumes false qualifiedName := fun _ _ => leads_identifier
  (fun _ _ => keeps_nameTail.collect.bind fun _ _ => leads_pure) fun _ _ => leads_pure

/-- The type in angle brackets after the word `list`. -/
lemma leads_listType {β : Type} {m' : Stretch} {k : QualifiedName → Parser β}
    (h : t.peek.isPunct "<") (hk : ∀ name u, Leads false m.take (k name) m' u) :
    Leads false m (do
      discard bump
      let inner ← qualifiedName
      discard (expectPunct ">")
      k inner) m' t := by
  refine leads_skip (.of_isPunct h (by decide)) (consumes_qualifiedName.keeps.bind fun name _ => ?_)
  exact (consumes_expectPunct (by decide)).keeps.bind fun _ u => hk name u

lemma keeps_memberType : Keeps false memberType := by
  refine fun m t => leads_atName (leads_ahead (leads_ite (fun h => ?_) fun _ =>
    consumes_qualifiedName.keeps m t))
  simp only [Bool.and_eq_true] at h
  refine Leads.weaken (leads_skip (.of_isName h.1) (Leads.weaken ?_))
  exact leads_listType (t.peek_advance ▸ h.2) fun _ _ => leads_pure

lemma keeps_declaredType : Keeps false declaredType := by
  refine fun m t => leads_atName (leads_ahead (leads_ite (fun h => ?_) fun _ =>
    consumes_qualifiedName.keeps.bind fun _ _ => leads_pure))
  simp only [Bool.and_eq_true] at h
  refine Leads.weaken (leads_bump (.of_isName h.1) (Leads.weaken ?_))
  exact leads_listType (t.peek_advance ▸ h.2) fun _ _ => leads_pure

/-! Signals and enumerations. -/

lemma consumes_signalParameter : Consumes false signalParameter := by
  refine fun m t => leads_peek (leads_ahead (leads_ite (fun h => ?_) fun _ => ?_))
  · simp only [Bool.and_eq_true,beq_iff_eq] at h
    have hcolon : t.advance.peek.isPunct ":" := t.peek_advance ▸ h.2
    refine leads_bump (.of_name h.1) (leads_skip (.of_isPunct hcolon (by decide)) ?_)
    exact keeps_memberType.bind fun _ _ => leads_pure
  · refine keeps_memberType.bind fun _ _ => ?_
    exact leads_identifier (fun _ _ => leads_pure) fun _ _ => leads_pure

lemma keeps_signalParameters : Keeps false signalParameters := by
  refine fun m t => leads_eatOpen .round (fun u => Leads.weaken ?_) leads_pure
  exact leads_upTo .round (consumes_signalParameter.commaSeparated ")") fun _ _ => leads_pure

lemma leads_signalMember (h : t.peek.Inner) : Leads false m signalMember m.take t := by
  refine leads_start (Leads.marked fun _ => leads_skip h (leads_identifier (fun name _ => ?_)
    fun _ => leads_nameless))
  refine keeps_signalParameters.bind fun _ _ => keeps_endStatement.bind fun _ _ => ?_
  exact leads_markedPart nofun rfl

lemma keeps_enumValue : Keeps false enumValue := by
  refine fun m t => (keeps_eatPunct (by decide)).bind fun _ u => leads_peek (leads_ite (fun h => ?_)
    fun _ => (keeps_reportHere _).bind fun _ _ => leads_pure)
  rw [beq_iff_eq] at h
  exact Leads.weaken (leads_bump (.of_kind (by simp [h]) (by simp [h])) leads_pure)

lemma keeps_enumInitializer : Keeps false enumInitializer := fun m _ =>
  (keeps_eatPunct (by decide)).bind fun _ u => leads_ite (fun _ => keeps_enumValue m u)
    fun _ => leads_pure

lemma consumes_enumMember : Consumes false enumMember := fun _ _ => leads_identifier
  (fun _ _ => keeps_enumInitializer.bind fun _ _ => leads_pure) fun _ _ => leads_pure

lemma leads_enumDeclaration (h : t.peek.Inner) : Leads false m enumDeclaration m.take t := by
  refine leads_start (Leads.marked fun _ => leads_skip h (leads_identifier (fun name _ => ?_)
    fun _ => leads_nameless))
  exact leads_between .curly (consumes_enumMember.commaSeparated "\x7d") fun _ _ =>
    leads_markedPart nofun rfl

/-! Objects and rows of objects. -/

lemma Faithful.script {only : Bool} (hgo : Faithful only go) : Consumes only (script go) := by
  intro m t
  apply leads_peek
  apply leads_ite
  · intro _
    exact hgo.statement m t
  · intro _
    exact hgo.expressionStatement m t

variable (hgo : Faithful false go)
include hgo

lemma Faithful.braces : Consumes false (Grammar.initializer go) := (hgo.initializer rfl).nested

lemma Faithful.objectDefinition : Consumes false (objectDefinition go) := fun _ _ => leads_start
  (consumes_qualifiedName.bind fun _ _ => hgo.braces.bind fun _ _ => leads_part nofun (.inl nofun))

lemma Faithful.arrayMember : Consumes false (arrayMember go) := fun m _ => leads_upcoming (leads_ite
  (fun _ => hgo.objectDefinition.bind fun _ _ => leads_pure)
  fun _ => leads_reportHere (n := m.take) fun _ _ => leads_pure)

omit hgo in
lemma isPunct_of_startsObjectArray (h : startsObjectArray t.rest) : t.peek.isPunct "[" := by
  cases hrest : t.rest with
  | nil => simp [hrest,startsObjectArray] at h
  | cons x rest =>
    simp only [hrest,startsObjectArray,Bool.and_eq_true] at h
    simpa [State.peek,hrest] using h.1

lemma leads_objectArray (h : t.peek.isPunct "[") : Leads false m (objectArray go) m.take t :=
  leads_start (leads_open .square h (leads_upTo .square (hgo.arrayMember.commaSeparated "]")
    fun _ _ => leads_get leads_pure))

/-! Declared properties. -/

omit hgo in
lemma keeps_memberModifier (found : MemberModifiers) : Keeps false (memberModifier found) := by
  refine fun m t => leads_peek (leads_ahead (leads_ite (fun _ => ?_) fun _ => leads_pure))
  refine leads_skipIf_keeps (fun h => ?_) fun _ => leads_pure
  unfold MemberModifiers.note at h
  split at h
  · exact .of_isName ‹_›
  split at h
  · exact .of_isName ‹_›
  split at h
  · exact .of_isName ‹_›
  · cases h

lemma keeps_firstValue (name : Ident) : Keeps false (firstValue go name) := by
  refine fun m t => (keeps_eatPunct (by decide)).bind fun _ _ => leads_ite (fun _ => leads_upcoming
    (leads_ite (fun _ => ?_) fun _ => leads_ite (fun h => ?_) fun _ => ?_)) fun _ => ?_
  · exact hgo.objectDefinition.keeps.bind fun _ _ => leads_pure
  · refine (leads_objectArray hgo (isPunct_of_startsObjectArray h)).weaken.bind fun _ _ => ?_
    exact Leads.bind (leads_make nofun nofun (.inr rfl)) fun _ _ => leads_pure
  · exact hgo.script.keeps.bind fun _ _ => leads_pure
  · exact keeps_endStatement.bind fun _ _ => leads_pure

lemma keeps_propertyMember (start : Nat) (modifiers : MemberModifiers) :
    Keeps false (propertyMember go start modifiers) := by
  refine fun m t => keeps_declaredType.bind fun _ _ => Leads.weaken ?_
  refine leads_identifier (fun name _ => ?_) fun _ => leads_nameless
  exact (keeps_firstValue hgo name).bind fun _ _ => leads_part nofun (.inr rfl)

omit hgo in
lemma consumes_requiredMember (start : Nat) (modifiers : MemberModifiers) :
    Consumes false (requiredMember start modifiers) := by
  intro m t
  have hmissing : ∀ n u, Leads false n (do
      reportHere (.expected "property")
      finish .error start) m.take u := fun _ _ => leads_reportHere fun _ => leads_nameless
  unfold requiredMember requiredName
  split
  · refine leads_identifier (fun name _ => ?_) fun u _ => hmissing _ u
    exact keeps_endStatement.bind fun _ _ => leads_part nofun (.inr rfl)
  · exact hmissing m t

lemma Faithful.publicMember : Consumes false (publicMember go) := by
  refine fun m t => leads_start ((Keeps.iterate keeps_memberModifier {}).bind fun modifiers u => ?_)
  refine leads_eat inner_isName (fun _ => ?_) fun _ => ?_
  · exact keeps_propertyMember hgo _ modifiers m.take _
  · exact consumes_requiredMember _ modifiers m u

/-! Members that start with a dotted name. -/

lemma keeps_boundValue (start : Nat) (name : QualifiedName) :
    Keeps false (boundValue go start name) := by
  refine fun m t => leads_upcoming (leads_ite (fun _ => ?_) fun _ => leads_ite (fun h => ?_) fun _ => ?_)
  · refine consumes_qualifiedName.keeps.bind fun _ _ => ?_
    exact hgo.braces.keeps.bind fun _ _ => leads_part nofun (.inl nofun)
  · refine (leads_objectArray hgo (isPunct_of_startsObjectArray h)).weaken.bind fun _ _ => ?_
    exact leads_part nofun (.inr rfl)
  · exact hgo.script.keeps.bind fun _ _ => leads_make nofun nofun (.inl nofun)

lemma Faithful.bindingMember : Consumes false (bindingMember go) := by
  refine fun m t => leads_start (consumes_qualifiedName.bind fun name u => leads_atName (leads_ahead
    (leads_ite (fun h => ?_) fun _ => leads_atPunct (leads_ite (fun _ => ?_) fun _ => ?_))))
  · simp only [Bool.and_eq_true] at h
    refine Leads.weaken (leads_skip (.of_isName h.1) (consumes_qualifiedName.keeps.bind fun _ _ => ?_))
    exact hgo.braces.keeps.bind fun _ _ => leads_part nofun (.inl nofun)
  · exact hgo.braces.keeps.bind fun _ _ => leads_part nofun (.inl nofun)
  · refine leads_expect (fun h _ hs => ?_) (fun u => keeps_boundValue hgo _ name m.take u)
      fun _ => leads_nameless
    exact (hs.advance (by simp [(Bracket.isPunct_iff.mp h).1])
      ((inner_isPunct (by decide) _ h).plain _))

/-! Members of any form. -/

omit hgo in
lemma leads_sourceElement {element : Parser Node} (h : Leads false m element m.take t) :
    Leads false m (sourceElement element) m.take t :=
  h.bind fun _ _ => leads_make nofun nofun (.inl nofun)

lemma leads_namedMember (h : t.peek.kind = .name) :
    Leads false m (namedMember go t.peek (t.ahead 1) (t.ahead 2)) m.take t := by
  refine leads_ite (fun _ => hgo.publicMember m t) fun _ => ?_
  refine leads_ite (fun _ => leads_signalMember (.of_name h)) fun _ => ?_
  refine leads_ite (fun _ => leads_enumDeclaration (.of_name h)) fun _ => ?_
  refine leads_ite (fun hword => leads_sourceElement ?_) fun _ => ?_
  · rw [Bool.and_eq_true] at hword
    exact leads_functionDeclaration hgo (startsFunction_of h rfl (.inl hword.1))
  refine leads_ite (fun hword => leads_sourceElement ?_) fun _ => ?_
  · exact leads_functionDeclaration hgo (startsFunction_of h rfl (.inr hword))
  refine leads_ite (fun _ => leads_sourceElement (leads_variableStatement hgo h)) fun _ => ?_
  exact hgo.bindingMember m t

lemma Faithful.objectMember : Consumes false (objectMember go) := by
  refine fun m t => leads_peek (leads_ite (fun h => ?_) fun _ => ?_)
  · exact leads_ahead (leads_ahead ((leads_namedMember hgo (by simpa using h)).bind
      fun _ _ => leads_pure))
  · exact leads_reportHere (n := m.take) fun _ _ => leads_pure

lemma consumes_readInitializer : Consumes false (readInitializer go) := fun _ _ => leads_start
  (Leads.marked fun _ => leads_between .curly hgo.objectMember.everyRound.collectUntil fun _ _ =>
    leads_markedPart nofun rfl)

end

end QmlCodeModel.Grammar

/-! Whole sources: without an error their brackets are nested, and no node stands for input that could not be
read. -/
namespace QmlCodeModel.Grammar

section

variable {only : Bool} {go : Reader} {m : Stretch} {t : State}

lemma faithful_readGoal (hgo : Faithful only go) : Faithful only (readGoal go) := by
  refine ⟨fun goal hgoal hnew => ?_,fun _ _ h => leads_readNew hgo h,?_⟩
  · cases goal with
    | statement => exact consumes_readStatement hgo
    | assignment => exact consumes_readAssignment hgo
    | unary => exact consumes_readUnary hgo
    | newExpression => exact absurd rfl hnew
    | primary => exact consumes_readPrimary hgo
    | initializer => exact absurd rfl hgoal
    | binary above => exact consumes_readBinary hgo above
  · rintro rfl
    exact consumes_readInitializer hgo

/-- By induction on the levels: without a level there is no answer. -/
theorem faithful_readWithin (only : Bool) (levels : Nat) : Faithful only (readWithin levels) := by
  induction levels with
  | zero =>
    refine ⟨fun _ _ _ _ _ _ _ _ _ h => ?_,fun _ _ _ _ _ _ _ h => ?_,fun _ _ _ _ _ _ _ h => ?_⟩ <;> cases h
  | succ levels ih => exact faithful_readGoal ih

/-! Headers of documents and directives of programs. -/

lemma keeps_announce (directive : Directive) : Keeps only (announce directive) := by
  rintro m t s hs a u ⟨⟩
  exact hs.congr rfl rfl rfl rfl rfl rfl

lemma keeps_importQualifier : Keeps false importQualifier := fun m _ =>
  (keeps_eatName "as").bind fun _ u => leads_ite (fun _ => consumes_identifier.keeps m u)
    fun _ => leads_pure

lemma keeps_importTarget : Keeps false importTarget := by
  refine fun m t => leads_peek (leads_ite (fun h => ?_) fun _ => ?_)
  · rw [beq_iff_eq] at h
    exact Leads.weaken (leads_bump (.of_kind (by simp [h]) (by simp [h])) leads_pure)
  · exact consumes_qualifiedName.keeps.bind fun _ _ => leads_pure

lemma keeps_importVersion : Keeps false importVersion := by
  refine fun m t => leads_peek (leads_ite (fun h => ?_) fun _ => leads_pure)
  simp only [Bool.and_eq_true,beq_iff_eq] at h
  exact Leads.weaken (leads_skip (.of_kind (by simp [h.1]) (by simp [h.1])) leads_pure)

lemma leads_importHeader (h : t.peek.Inner) : Leads false m importHeader m.take t := by
  refine leads_start (Leads.marked fun _ => leads_place (leads_skip h (keeps_importTarget.bind fun _ _ => ?_)))
  refine keeps_importVersion.bind fun _ _ => keeps_importQualifier.bind fun _ _ => ?_
  exact keeps_endStatement.bind fun _ _ => (keeps_announce _).bind fun _ _ => leads_markedPart nofun rfl

lemma leads_pragmaHeader (h : t.peek.Inner) (hname : (t.ahead 1).kind = .name) :
    Leads false m pragmaHeader m.take t := by
  rw [← t.peek_advance] at hname
  refine leads_start (Leads.marked fun _ => leads_skip h (leads_ident hname ?_))
  exact keeps_endStatement.bind fun _ _ => leads_markedPart nofun rfl

lemma keeps_header : Keeps false header := by
  refine fun m t => leads_peek (leads_ahead (leads_ite (fun h => ?_) fun _ => leads_ite (fun h => ?_)
    fun _ => leads_pure))
  · rw [Bool.and_eq_true] at h
    exact (leads_importHeader (.of_isName h.1)).weaken.bind fun _ _ => leads_pure
  · simp only [Bool.and_eq_true,beq_iff_eq] at h
    exact (leads_pragmaHeader (.of_isName h.1) h.2).weaken.bind fun _ _ => leads_pure

lemma keeps_directiveQualifier : Keeps false directiveQualifier := fun _ _ => (keeps_eatName "as").bind
  fun _ _ => leads_ite (fun _ => consumes_identifier.keeps.bind fun _ _ => leads_pure)
    fun _ => (keeps_reportHere _).bind fun _ _ => leads_pure

lemma keeps_moduleVersion : Keeps false moduleVersion := by
  refine fun m t => leads_peek (leads_ite (fun h => ?_) fun _ => ?_)
  · rw [beq_iff_eq] at h
    exact Leads.weaken (leads_bump (.of_kind (by simp [h]) (by simp [h])) leads_pure)
  · exact (keeps_reportHere _).bind fun _ _ => leads_pure

lemma keeps_directiveAfter (word : Token) (place : LineColumn) :
    Keeps false (directiveAfter word place) := by
  refine fun m t => leads_ite (fun _ => ?_) fun _ => leads_peek (leads_ite (fun h => ?_) fun _ => ?_)
  · exact (keeps_eatName "library").bind fun _ u => leads_ite (fun _ => keeps_announce _ m u)
      fun _ => keeps_reportHere _ m u
  · rw [beq_iff_eq] at h
    refine Leads.weaken (leads_bump (.of_kind (by simp [h]) (by simp [h])) (Leads.weaken ?_))
    exact keeps_directiveQualifier.bind fun _ u => keeps_announce _ _ u
  · refine consumes_qualifiedName.keeps.bind fun _ _ => keeps_moduleVersion.bind fun _ _ => ?_
    exact keeps_directiveQualifier.bind fun _ u => keeps_announce _ m u

lemma keeps_directive : Keeps false directive := by
  refine fun m t => leads_peek (leads_ahead (leads_taken (leads_ite (fun h => ?_) fun _ => leads_pure)))
  simp only [Bool.and_eq_true,Bool.or_eq_true] at h
  have hword : t.advance.peek.Inner := by
    rw [t.peek_advance]
    exact h.2.elim .of_isName .of_isName
  refine leads_place (Leads.weaken (leads_skip (.of_isPunct h.1.1 (by decide)) ?_))
  refine Leads.weaken (leads_bump hword ((keeps_directiveAfter _ _).bind fun _ _ => ?_))
  exact (keeps_eatPunct (by decide)).discard.bind fun _ _ => leads_pure

/-! Roots. -/

/-- Nothing is known of what is left out after a report. -/
lemma leads_skipRest (hspoiled : t.diagnostics ≠ #[]) : Leads only m skipRest m t := by
  rintro s hs a u ⟨⟩
  exact ⟨hs.eof,hs.errors,hs.made,fun hblank => absurd hblank hspoiled,fun hblank => absurd hblank hspoiled,
    fun hblank => absurd hblank hspoiled⟩

lemma keeps_refuseRest (fault : GrammarFault) : Keeps only (refuseRest fault) := fun _ _ => leads_atEnd
  (leads_ite (fun _ => leads_pure) fun _ => leads_reportHere fun _ => leads_skipRest)

lemma keeps_readSingleExpression (hgo : Faithful only go) : Keeps only (readSingleExpression go) := by
  intro m t
  refine Keeps.bind ?_ fun _ _ => leads_atEnd ((keeps_reportIf _ _).bind fun _ _ => leads_pure)
  exact fun m t => leads_atEnd (leads_ite (fun _ => (consumes_missing _).keeps m t)
    fun _ => hgo.expression.keeps m t)

variable (hgo : Faithful false go)
include hgo

lemma keeps_rootObject : Keeps false (rootObject go) := by
  refine fun m t => leads_upcoming (leads_ite (fun _ => ?_) fun _ =>
    leads_reportHere (n := m) fun u hspoiled => ?_)
  · exact hgo.objectDefinition.keeps.bind fun _ _ => (keeps_refuseRest _).bind fun _ _ => leads_pure
  · exact (leads_skipRest hspoiled).bind fun _ _ => leads_pure

/-- A source closes the brackets that it opens, unless an error is reported. -/
lemma keeps_readSource (whole : Span) (form : SourceForm) : Keeps false (readSource go whole form) := by
  intro m t
  cases form with
  | qml =>
    refine keeps_header.collect.bind fun _ _ => (keeps_rootObject hgo).bind fun _ _ => ?_
    exact leads_make nofun nofun (.inr rfl)
  | program =>
    refine keeps_directive.collect.discard.bind fun _ _ => ?_
    exact (keeps_statementsUntil hgo _).bind fun _ _ => leads_make nofun nofun (.inr rfl)
  | expression => exact keeps_readSingleExpression hgo m t

end

/-! The end of the text. -/

/-- A part that goes on to the end of the text, or reports an error. -/
def Exhausts {α : Type} (p : Parser α) : Prop :=
  ∀ t a u, p t = .ok (a, u) → u.diagnostics = #[] → u.peek.kind = .eof

section

variable {α β : Type} {p : Parser α} {k : α → Parser β}

lemma exhausts_bind (h : ∀ a, Exhausts (k a)) : Exhausts (p >>= k) := by
  intro t b v hv
  obtain ⟨a,u,-,hv⟩ := bind_eq_ok hv
  exact h a u b v hv

lemma Exhausts.bind_pure {f : α → β} (h : Exhausts p) : Exhausts (p >>= fun a => pure (f a)) := by
  intro t b v hv
  obtain ⟨a,u,hu,⟨⟩⟩ := bind_eq_ok hv
  exact h t a _ hu

lemma Exhausts.bind_make {whole : Span} {f : α → Kind Node} (h : Exhausts p) :
    Exhausts (p >>= fun a => make whole (f a)) := by
  intro t b v hv
  obtain ⟨a,u,hu,⟨⟩⟩ := bind_eq_ok hv
  exact h t a u hu

lemma exhausts_refuseRest (fault : GrammarFault) : Exhausts (refuseRest fault) := by
  intro t a u hu hblank
  change (if t.peek.kind == .eof then (pure () : Parser Unit) else _) t = _ at hu
  split at hu
  · rename_i hend
    cases hu
    exact beq_iff_eq.mp hend
  · cases hu
    exact absurd hblank (Since.report_ne_empty _ _ _)

lemma exhausts_rootObject (go : Reader) : Exhausts (rootObject go) := by
  intro t a u hu
  change (if startsObject false t.rest then objectDefinition go >>= _ else _ : Parser _) t = _ at hu
  split at hu
  · exact exhausts_bind (fun _ => (exhausts_refuseRest _).bind_pure) t a u hu
  · cases hu
    exact fun hblank => absurd hblank (Since.report_ne_empty _ _ _)

/-- A loop up to the end of the text, none of whose rounds is the last one by itself. -/
lemma exhausts_collectUntil {round : Parser (Round α)}
    (h : ∀ t r u, round t = .ok (r, u) → r.more) : Exhausts (collectUntil (·.kind == .eof) round) := by
  suffices hwithin : ∀ rounds, Exhausts (collectWithin (roundUntil (·.kind == .eof) round) rounds) from
    fun t => hwithin (t.rest.length + 1) t
  intro rounds
  induction rounds with
  | zero => exact fun _ _ _ hu => by cases hu
  | succ rounds ih =>
    intro t items v hv
    obtain ⟨r,u,hu,hv⟩ := bind_eq_ok hv
    change (if (t.peek.kind == .eof || t.peek.kind == .eof) = true then pure ⟨[], false⟩ else round) t = _ at hu
    rw [Bool.or_self] at hu
    split at hu
    · rename_i hend
      cases hu
      cases hv
      exact fun _ => beq_iff_eq.mp hend
    · rw [if_pos (h t r u hu)] at hv
      exact ih.bind_pure u items v hv

lemma exhausts_statements (go : Reader) : Exhausts (statementsUntil go (·.kind == .eof)) :=
  exhausts_collectUntil fun t r u hu => by
    obtain ⟨items,v,-,⟨⟩⟩ := bind_eq_ok hu
    rfl

lemma exhausts_readSource (go : Reader) (whole : Span) (form : SourceForm) :
    Exhausts (readSource go whole form) := by
  cases form with
  | qml => exact exhausts_bind fun _ => (exhausts_rootObject go).bind_make
  | program => exact exhausts_bind fun _ => (exhausts_statements go).bind_make
  | expression =>
    refine exhausts_bind fun root t a u hu => ?_
    change (reportIf (!t.peek.kind == .eof) .tokenAfterExpression >>= fun _ => pure root) t = _ at hu
    cases hend : t.peek.kind == .eof with
    | true =>
      rw [hend] at hu
      cases hu
      exact fun _ => beq_iff_eq.mp hend
    | false =>
      rw [hend] at hu
      cases hu
      exact fun hblank => absurd hblank (Since.report_ne_empty _ _ _)

end

/-! Whole sources. -/

section

variable (text : List Char)

/-- The tokens are to come, and no node has been made. -/
structure Fresh (tokens : List Token) (s : State) : Prop where
  rest : s.rest = tokens
  nodes : s.nodes = #[]
  errors : s.Errs

lemma Fresh.report {tokens : List Token} {s : State} (h : Fresh tokens s) (offset : Nat)
    (fault : GrammarFault) : Fresh tokens (s.report offset fault) :=
  ⟨(s.rest_report offset fault).trans h.rest,(s.nodes_report offset fault).trans h.nodes,
    Since.errs_report h.errors offset fault⟩

lemma fresh_opening : Fresh (tokenize text).tokens.toList.dropLast (opening text) :=
  Array.foldl_induction (fun _ s => Fresh (tokenize text).tokens.toList.dropLast s)
    ⟨rfl,rfl,by simp [State.Errs]⟩ fun _ _ h => h.report _ _

/-- Every fault of the text is reported before the first token. -/
lemma faults_of_opening (h : (opening text).diagnostics = #[]) : (tokenize text).faults = #[] := by
  by_contra hfaults
  refine absurd h (Array.foldl_induction (fun i (s : State) => 0 < i → s.diagnostics ≠ #[])
    (fun h => absurd h (Nat.lt_irrefl 0)) (fun _ _ _ _ => Since.report_ne_empty _ _ _) ?_)
  exact Array.size_pos_iff.mpr hfaults

variable {text}

/-- A source that has been read to its end without an error: the tokens that were taken are all of its
tokens, and they nest. -/
lemma since_reading {form : SourceForm} {root : Node} {t : State}
    (h : reading form text = .ok (root, t)) : Since false (opening text) {} t ∧
      (t.diagnostics = #[] → t.peek.kind = .eof) := by
  have hfaithful := faithful_readWithin false (maxNesting + (opening text).rest.length + 1)
  refine ⟨?_,exhausts_readSource _ _ form _ _ _ h⟩
  exact keeps_readSource hfaithful _ form {} _ (opening text) (.refl (ready_opening text).1.eof) root t h

/-- The brackets of a text that has been read without an error are nested. -/
lemma nested_of_reading {form : SourceForm} {root : Node} {t : State}
    (h : reading form text = .ok (root, t)) (hblank : t.diagnostics = #[]) :
    Bracket.Nested (tokenize text).tokens.toList := by
  obtain ⟨hsince,hend⟩ := since_reading h
  obtain ⟨ts,hts⟩ := hsince.took hblank
  obtain ⟨tokens,eof,htokens,heof,-⟩ := tokens_tokenize text
  have hkinds := kinds_tokenize text
  rw [← (fresh_opening text).rest,hts.rest] at hkinds
  have hrest : t.rest = [] := by
    cases hrest : t.rest with
    | nil => rfl
    | cons x rest =>
      have hx : x.kind = .eof := by simpa [State.peek,hrest] using hend hblank
      exact absurd hx (hkinds x (by simp [hrest]))
  have hall : tokens = ts := by
    have h := (fresh_opening text).rest
    rw [htokens,List.dropLast_concat,hts.rest,hrest,List.append_nil] at h
    exact h.symm
  have hplain : Bracket.step [] eof = some [] :=
    Bracket.step_of_kind (by simp [heof]) []
  rw [htokens,hall,Bracket.Nested,Bracket.nest_append,hts.nested]
  simp [Bracket.nest,hplain]

end

/-- Where no error is found, none has been reported. -/
lemma blank_of_success {ds : Array Diagnostic} (herrors : ∀ d ∈ ds.toList, d.severity = .error)
    (h : !(Diagnostic.sort ds.toList).any (·.severity == .error)) : ds = #[] := by
  rw [← Array.toList_eq_nil_iff,List.eq_nil_iff_forall_not_mem]
  intro d hd
  simp only [Bool.not_eq_true',List.any_eq_false] at h
  exact h d (List.mem_mergeSort.mpr hd) (by simp [herrors d hd])

/-- A source that is read with success has no node for input that could not be read, neither in its
tree nor outside it, its text has no fault, and its brackets are nested. -/
theorem clean_of_success {form : SourceForm} {source : String} {p : Parse}
    (h : parse? form source = some p) (hsuccess : p.success) :
    (∀ n ∈ p.nodes, n.kind ≠ .error) ∧ (tokenize source.toList).faults = #[] ∧
      Bracket.Nested (tokenize source.toList).tokens.toList := by
  obtain ⟨root,t,hreading,-,hnodes,hdiagnostics⟩ := reading_of_parse? h
  obtain ⟨hsince,-⟩ := since_reading hreading
  have hblank : t.diagnostics = #[] := by
    refine blank_of_success (hsince.errors (fresh_opening _).errors) ?_
    rw [← hdiagnostics]
    exact hsuccess
  obtain ⟨ts,hts⟩ := hsince.took hblank
  refine ⟨fun n hn => ?_,faults_of_opening _ hts.blank,nested_of_reading hreading hblank⟩
  obtain ⟨made,hmade,-,hnone⟩ := hsince.made
  rw [(fresh_opening source.toList).nodes] at hmade
  refine hnone hblank n ?_
  rw [hnodes,← Array.mem_toList_iff,hmade] at hn
  simpa using hn

/-- A call in an array in braces. -/
theorem clean_of_success_call : ∃ p, parse? .qml "A\x7bb:[f(0)]\x7d" = some p ∧ p.success ∧
    p.nodes.size = 9 ∧ (∀ n ∈ p.nodes, n.kind ≠ .error) ∧
    (tokenize "A\x7bb:[f(0)]\x7d".toList).faults = #[] ∧
    Bracket.Nested (tokenize "A\x7bb:[f(0)]\x7d".toList).tokens.toList := by
  have h : (parse? .qml "A\x7bb:[f(0)]\x7d").any fun p => p.success ∧ p.nodes.size = 9 := by
    decide +kernel
  obtain ⟨p,hp,hread⟩ := (Option.any_eq_true _ _).mp h
  obtain ⟨hsuccess,hsize⟩ := of_decide_eq_true hread
  exact ⟨p,hp,hsuccess,hsize,clean_of_success hp hsuccess⟩

end QmlCodeModel.Grammar
