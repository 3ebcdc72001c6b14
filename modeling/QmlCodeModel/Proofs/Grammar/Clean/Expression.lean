import QmlCodeModel.Grammar.Expression
import QmlCodeModel.Proofs.Grammar.Clean.Basic

/-! Expressions close the brackets which they open, and take a token, unless an error is reported. -/
namespace QmlCodeModel.Grammar

section

variable {only : Bool} {go : Reader} {m : Stretch} {t : State} (hgo : Faithful only go)
include hgo

/-! Rows of expressions, arguments and tails of operands. -/

lemma Faithful.statement : Consumes only (statement go) := (hgo.scripts .statement nofun nofun).nested
lemma Faithful.assignment : Consumes only (assignment go) := (hgo.scripts .assignment nofun nofun).nested
lemma Faithful.primary : Consumes only (primary go) := (hgo.scripts .primary nofun nofun).nested

lemma keeps_nextExpression : Keeps only (nextExpression go) := fun _ _ =>
  (keeps_eatPunct (by decide)).bind fun _ _ => leads_ite
    (fun _ => hgo.assignment.keeps.bind fun _ _ => leads_pure) fun _ => leads_pure

lemma Faithful.expression : Consumes only (expression go) := by
  refine fun m t => leads_start (hgo.assignment.bind fun first u => leads_atPunct (leads_ite ?_ ?_))
  · exact fun _ => (keeps_nextExpression hgo).collect.bind fun _ _ => leads_layer rfl
  · exact fun _ => leads_pure

lemma Faithful.expressionWithIn : Consumes only (expressionWithIn go) := hgo.expression.withIn true

lemma Faithful.parenthesized : Consumes only (parenthesized go) := fun _ _ =>
  leads_between .round hgo.expressionWithIn.keeps fun _ _ => leads_pure

lemma Faithful.spreadOrAssignment : Consumes only (spreadOrAssignment go) := by
  refine fun m t => leads_start (leads_eat (inner_isPunct (by decide)) (fun _ => ?_) fun _ => ?_)
  · exact hgo.assignment.keeps.bind fun _ _ => leads_layer rfl
  · exact hgo.assignment m t

lemma leads_arguments (h : t.peek.isPunct "(") : Leads only m (arguments go) m.take t := by
  refine leads_open .round h (leads_upTo .round ?_ fun _ _ => leads_pure)
  exact (hgo.spreadOrAssignment.one.commaSeparated ")").withIn true

omit hgo in
lemma keeps_memberOf (start : Nat) (object : Node) (optional : Bool) :
    Keeps only (memberOf start object optional) := by
  refine Consumes.keeps fun m t => consumes_identifier.bind fun property _ => ?_
  cases property with
  | none => exact leads_pure
  | some property => exact (leads_layer rfl).map _

/-- The opening bracket has been taken before. -/
lemma leads_indexOf (start : Nat) (object : Node) (optional : Bool) :
    Leads only (m.enter .square) (indexOf go start object optional) m.take t :=
  leads_upTo .square hgo.expressionWithIn.keeps fun _ _ => (leads_layer rfl).map _

lemma leads_callOf (start : Nat) (callee : Node) (optional : Bool) (h : t.peek.isPunct "(") :
    Leads only m (callOf go start callee optional) m.take t :=
  (leads_arguments hgo h).bind fun _ _ => (leads_layer rfl).map _

lemma keeps_extendOperand (start : Nat) (allowCalls : Bool) (operand : Node) :
    Keeps only (extendOperand go start allowCalls operand) := by
  refine fun m t => leads_peek (leads_ite (fun h => ?_) fun _ => leads_ite (fun h => ?_) fun _ =>
    leads_ite (fun h => ?_) fun _ => leads_ite (fun h => ?_) fun _ => leads_ite (fun _ => ?_) fun _ =>
      leads_pure)
  · refine Leads.weaken (leads_skip (.of_isPunct h (by decide)) ?_)
    exact keeps_memberOf start operand false m.take _
  · simp only [Bool.and_eq_true] at h
    refine Leads.weaken (leads_skip (.of_isPunct h.1 (by decide)) ?_)
    refine leads_atPunct (leads_ite (fun h => leads_callOf hgo start operand true h) fun _ => ?_)
    refine leads_eatOpen .square (fun _ => leads_indexOf hgo start operand true) ?_
    exact keeps_memberOf start operand true m.take _
  · exact (leads_open .square h (leads_indexOf hgo start operand false)).weaken
  · simp only [Bool.and_eq_true] at h
    exact (leads_callOf hgo start operand false h.1).weaken
  · exact hgo.primary.keeps.bind fun _ _ => (leads_layer rfl).map _

lemma keeps_operandTail (start : Nat) (allowCalls : Bool) (operand : Node) :
    Keeps only (operandTail go start allowCalls operand) :=
  Keeps.iterate (keeps_extendOperand hgo start allowCalls) operand

lemma consumes_operandHead : Consumes only (operandHead go) := by
  refine fun m t => leads_atName (leads_ite (fun h => ?_) fun _ => hgo.primary m t)
  simp only [Token.isName,Bool.and_eq_true,beq_iff_eq] at h
  exact Leads.nested (hgo.newExpression m _ h.1)

lemma Faithful.operand : Consumes only (operand go) := fun m _ => leads_start
  ((consumes_operandHead hgo).bind fun head u => keeps_operandTail hgo _ true head m.take u)

lemma Faithful.callee : Consumes only (callee go) := fun m _ => leads_start
  ((consumes_operandHead hgo).bind fun head u => keeps_operandTail hgo _ false head m.take u)

lemma keeps_calleeArguments : Keeps only (calleeArguments go) := fun _ _ => leads_atPunct (leads_ite
  (fun h => (leads_arguments hgo h).weaken) fun _ => leads_pure)

omit hgo in
lemma leads_metaProperty (word : String) (h : t.peek.isPunct ".") (hpassed : m.passed) :
    Leads only m (metaProperty m.mark word) m.take t := by
  refine leads_marked_bind rfl hpassed (leads_skip (.of_isPunct h (by decide)) ?_)
  exact (keeps_memberOf m.mark _ false).bind fun _ _ => leads_pure

lemma leads_readNew (h : t.peek.kind = .name) : Leads only m (readNew go) m.take t := by
  refine leads_start (Leads.marked fun m => leads_bump (.of_name h) (leads_atPunct (leads_ite (fun h => ?_)
    fun _ => ?_)))
  · exact leads_metaProperty _ h rfl
  · exact hgo.callee.keeps.bind fun _ _ => (keeps_calleeArguments hgo).bind fun _ _ => leads_layer rfl

/-! Blocks, binding targets and functions. -/

lemma keeps_statementsUntil (stops : Token → Bool) : Keeps only (statementsUntil go stops) :=
  hgo.statement.one.everyRound.collectUntil

lemma Faithful.block : Consumes only (block go) := fun _ _ => leads_start (Leads.marked fun _ =>
  leads_between .curly (keeps_statementsUntil hgo _) fun _ _ => leads_marked rfl rfl)

lemma Faithful.functionBody (async generator : Bool) : Consumes only (functionBody go async generator) :=
  (hgo.block.withIn true).inFunction async generator

lemma Faithful.arrowBody (async : Bool) : Consumes only (arrowBody go async) := fun m t => leads_atPunct
  (leads_ite (fun _ => hgo.functionBody async false m t)
    fun _ => hgo.assignment.inFunction async false m t)

lemma Faithful.bindingTarget : Consumes only (bindingTarget go) := by
  refine fun m t => leads_peek (leads_ite (fun _ => ?_) fun _ => ?_)
  · exact (hgo.primary.withIn true).bind fun _ _ => leads_pure
  · exact consumes_bindingIdentifier.bind fun _ _ => leads_pure

lemma keeps_defaultValue : Keeps only (defaultValue go) :=
  (keeps_eatPunct (by decide)).optionally hgo.assignment.keeps

lemma Faithful.formalParameter : Consumes only (formalParameter go) := by
  refine fun m t => (keeps_eatPunct (by decide)).bind fun rest _ => hgo.bindingTarget.bind fun target _ => ?_
  cases target with
  | none => exact leads_pure
  | some target => exact (keeps_defaultValue hgo).bind fun _ _ => leads_pure

lemma Faithful.formalParameters : Consumes only (formalParameters go) := by
  refine fun m t => leads_expect (fun h _ hs => hs.open (b := .round) h) (fun u => ?_) fun u hspoiled => ?_
  · exact leads_upTo .round ((hgo.formalParameter.commaSeparated ")").withIn true) fun _ _ => leads_pure
  · exact (leads_pure (m := m.take)).spoiled hspoiled

omit hgo in
lemma keeps_declaredName (required : Bool) (isName : Token → Bool) (missing : GrammarFault) :
    Keeps only (declaredName required isName missing) := fun m t => leads_peek (leads_ite
  (fun _ => consumes_bindingIdentifier.keeps m t)
  fun _ => (keeps_reportIf required missing).bind fun _ _ => leads_pure)

omit hgo in
/-- The words that a function starts with come next. -/
def StartsFunction (t : State) : Prop :=
  t.peek.isName "function" ∨ t.peek.isName "async" ∧ (t.ahead 1).isName "function"

lemma leads_function (nameRequired : Bool) (h : StartsFunction t) :
    Leads only m (function go nameRequired) m.take t := by
  have hafter : ∀ async m t, t.peek.isName "function" → Leads only m (do
      discard bump
      let generator ← eatPunct "*"
      let name ← declaredName nameRequired (·.kind == .name) .expectedFunctionName
      let params ← formalParameters go
      let body ← functionBody go async generator
      pure ({ name, params, body, arrow := false, async, generator } : FunctionParts Node))
        m.take t := by
    intro async m t h
    refine leads_skip (.of_isName h) ((keeps_eatPunct (by decide)).bind fun generator _ => ?_)
    refine (keeps_declaredName nameRequired _ _).bind fun name _ => ?_
    refine hgo.formalParameters.bind fun params _ => ?_
    exact (hgo.functionBody async generator).bind fun _ _ => leads_pure
  refine leads_eat inner_isName (fun hasync => ?_) fun hasync => ?_
  · refine hafter true m.take t.advance ?_
    obtain h | h := h
    · simp only [Token.isName,Bool.and_eq_true,beq_iff_eq] at h hasync
      exact absurd (h.2.symm.trans hasync.2) (by decide)
    · exact t.peek_advance ▸ h.2
  · exact hafter false m t (h.resolve_right fun h => hasync h.1)

lemma leads_functionDeclaration (h : StartsFunction t) :
    Leads only m (functionDeclaration go) m.take t :=
  leads_start ((leads_function hgo true h).bind fun _ _ => leads_layer rfl)

lemma leads_functionExpression (h : StartsFunction t) :
    Leads only m (functionExpression go) m.take t :=
  leads_start ((leads_function hgo false h).bind fun _ _ => leads_layer rfl)

omit hgo in
lemma inner_of_isBindable {x : Token} (h : x.isBindable) : x.Inner := by
  simp only [Token.isBindable,Bool.and_eq_true,beq_iff_eq] at h
  exact .of_name h.1

omit hgo in
lemma isBindable_of_arrowHeadAt {n : Nat} (h : t.arrowHeadAt n = some .name) :
    (t.ahead n).isBindable :=
  (State.arrowHeadAt_eq_some h).elim (·.2) fun h => nomatch h.1

lemma leads_arrowParameters {head : ArrowHead} (h : head = .name → t.peek.isBindable) :
    Leads only m (arrowParameters go head) m.take t := by
  cases head with
  | name => exact leads_bump (inner_of_isBindable (h rfl)) leads_pure
  | list => exact hgo.formalParameters m t

lemma leads_arrowFunction {async : Bool} {head : ArrowHead} (hasync : async → t.peek.isName "async")
    (hhead : t.arrowHeadAt (if async then 1 else 0) = some head) :
    Leads only m (arrowFunction go async head) m.take t := by
  have hafter : ∀ m u, (head = .name → u.peek.isBindable) → Leads only m (do
      let params ← arrowParameters go head
      discard (expectPunct "=>")
      let body ← arrowBody go async
      finish (.functionExpression
        { name := none, params, body, arrow := true, async, generator := false }) t.front) m.take u := by
    intro m u h
    refine (leads_arrowParameters hgo h).bind fun params _ => ?_
    refine (consumes_expectPunct (by decide)).bind fun _ _ => ?_
    exact (hgo.arrowBody async).bind fun body _ => leads_layer rfl
  refine leads_start (leads_skipIf (fun h => .of_isName (hasync h)) (fun h => ?_) fun h => ?_)
  · refine hafter m.take t.advance fun hname => ?_
    rw [hname,if_pos h] at hhead
    exact t.peek_advance ▸ isBindable_of_arrowHeadAt hhead
  · refine hafter m t fun hname => ?_
    rw [hname,if_neg (by simp [h])] at hhead
    exact isBindable_of_arrowHeadAt hhead

/-! Members of object literals and of classes. -/

omit hgo in
lemma keeps_propertyWord : Keeps only propertyWord := by
  refine fun m t => leads_peek (leads_ahead (leads_ite (fun h => ?_) fun _ => leads_ite (fun h => ?_)
    fun _ => leads_pure))
  · simp only [Bool.and_eq_true,Bool.or_eq_true] at h
    exact Leads.weaken (leads_skip (h.1.elim .of_isName .of_isName) leads_pure)
  · simp only [Bool.and_eq_true] at h
    exact Leads.weaken (leads_skip (.of_isName h.1.1) leads_pure)

omit hgo in
lemma keeps_propertyModifiers : Keeps only propertyModifiers := fun _ _ => keeps_propertyWord.bind
  fun _ _ => (keeps_eatPunct (by decide)).bind fun _ _ => leads_ite (fun _ => leads_pure) fun _ => leads_pure

lemma Faithful.propertyKey : Consumes only (propertyKey go) := by
  refine fun m t => leads_peek ?_
  split
  · rename_i h
    exact leads_skip (.of_name h) leads_pure
  · rename_i h
    exact leads_skip (.of_kind (by simp [h]) (by simp [h])) leads_pure
  · rename_i h
    exact leads_skip (.of_kind (by simp [h]) (by simp [h])) leads_pure
  · refine leads_ite (fun h => ?_) fun _ => ?_
    · refine leads_open .square h (leads_upTo .square ?_ fun _ _ => leads_pure)
      exact (hgo.assignment.withIn true).keeps
    · exact leads_reportHere (n := m.take) fun _ _ => leads_pure

lemma Faithful.method (async generator : Bool) : Consumes only (method go async generator) := fun _ _ =>
  leads_start (hgo.formalParameters.bind fun _ _ => (hgo.functionBody async generator).bind
    fun _ _ => leads_layer rfl)

lemma keeps_methodProperty (key : PropertyKey Node) (modifiers : PropertyModifiers) (isStatic : Bool)
    (start : Nat) : Keeps only (methodProperty go key modifiers isStatic start) := fun _ _ =>
  (hgo.method _ _).keeps.bind fun _ _ => leads_layer rfl

lemma leads_fieldProperty (key : PropertyKey Node) (isStatic : Bool) (hpassed : m.passed) :
    Leads only m (fieldProperty go key isStatic m.mark) m t := by
  refine Keeps.bind ?_ fun _ _ => keeps_endStatement.bind fun _ _ => leads_marked rfl hpassed
  exact (keeps_eatPunct (by decide)).optionally (hgo.assignment.withIn true).keeps

lemma leads_shorthandValue (name : String) (hpassed : m.passed) :
    Leads only m (shorthandValue go name m.mark) m t := (leads_marked rfl hpassed).bind fun _ _ =>
  (keeps_eatPunct (by decide)).bind fun _ _ => leads_ite
    (fun _ => hgo.assignment.keeps.bind fun _ _ => leads_layer rfl) fun _ => leads_pure

lemma leads_literalProperty (key : PropertyKey Node) (modifiers : PropertyModifiers) (isStatic : Bool)
    (start : Nat) (hpassed : m.passed) :
    Leads only m (literalProperty go key m.mark modifiers isStatic start) m t := by
  refine (keeps_eatPunct (by decide)).bind fun _ u => leads_ite (fun _ => ?_) fun _ => ?_
  · exact hgo.assignment.keeps.bind fun _ _ => leads_layer rfl
  split
  · exact (leads_shorthandValue hgo _ hpassed).bind fun _ _ => leads_layer rfl
  · exact leads_reportHere (n := m) fun _ hspoiled => leads_layer_spoiled rfl hspoiled

/-- A member of an object literal starts where its key does, or before. -/
lemma Faithful.literalMember (isStatic : Bool) (start : Nat) :
    Consumes only (namedProperty go false isStatic start) := by
  refine fun m t => keeps_propertyModifiers.bind fun modifiers _ => leads_start (Leads.marked fun m => ?_)
  refine hgo.propertyKey.bind fun key u => leads_atPunct (leads_ite (fun _ => ?_) fun _ => ?_)
  · exact keeps_methodProperty hgo key modifiers isStatic start _ u
  · exact leads_literalProperty hgo key modifiers isStatic start rfl

/-- A member of a class may be no more than its key. -/
lemma Faithful.classMember (isStatic : Bool) :
    Leads only m (namedProperty go true isStatic m.mark) m.take t := by
  refine keeps_propertyModifiers.bind fun modifiers _ => leads_start ?_
  refine hgo.propertyKey.bind fun key u => leads_atPunct (leads_ite (fun _ => ?_) fun _ => ?_)
  · exact keeps_methodProperty hgo key modifiers isStatic _ _ u
  · exact leads_fieldProperty (m := m.take) hgo key isStatic rfl

lemma Faithful.objectProperty : Consumes only (objectProperty go) := by
  refine fun m t => leads_start (leads_eat (inner_isPunct (by decide)) (fun _ => ?_) fun _ => ?_)
  · exact hgo.assignment.keeps.bind fun _ _ => leads_layer rfl
  · exact hgo.literalMember false _ m t

lemma Faithful.classElement : Consumes only (classElement go) := by
  refine fun m t => leads_start (Leads.marked fun m => leads_ahead (leads_peek (leads_skipIf_keeps
    (fun h => ?_) fun u => ?_)))
  · simp only [Bool.and_eq_true] at h
    exact .of_isName h.1
  · exact hgo.classMember _

lemma keeps_classElements : Keeps only (classElements go) := by
  refine Keeps.collectUntil fun m t => (keeps_eatPunct (by decide)).bind fun _ u => ?_
  exact leads_ite (fun _ => leads_pure) fun _ => hgo.classElement.one.everyRound m u

lemma leads_classParts (nameRequired : Bool) (h : t.peek.kind = .name) :
    Leads only m (classParts go nameRequired) m.take t := by
  refine leads_skip (.of_name h) ((keeps_declaredName nameRequired _ _).bind fun name _ => ?_)
  refine ((keeps_eatName "extends").optionally hgo.operand.keeps).bind fun heritage _ => ?_
  exact leads_between .curly (keeps_classElements hgo) fun _ _ => leads_pure

/-! Expressions proper. -/

lemma keeps_arrayElements : Keeps only (arrayElements go) := by
  refine Keeps.collectUntil fun m t => (keeps_eatPunct (by decide)).bind fun _ u => ?_
  refine leads_ite (fun _ => leads_pure) fun _ => ?_
  exact (hgo.spreadOrAssignment.map some).one.commaRound m u

lemma leads_arrayLiteral (h : t.peek.isPunct "[") : Leads only m (arrayLiteral go) m.take t :=
  leads_start (Leads.marked fun _ => leads_open .square h (leads_upTo .square
    ((keeps_arrayElements hgo).withIn true) fun _ _ => leads_marked rfl rfl))

lemma leads_objectLiteral (h : t.peek.isPunct "\x7b") : Leads only m (objectLiteral go) m.take t :=
  leads_start (Leads.marked fun _ => leads_open .curly h (leads_upTo .curly
    ((hgo.objectProperty.one.commaSeparated "\x7d").withIn true) fun _ _ => leads_marked rfl rfl))

lemma leads_groupedExpression (h : t.peek.isPunct "(") :
    Leads only m (groupedExpression go) m.take t := by
  refine leads_open .round h (leads_upTo .round (fun m t => ?_) fun _ _ => leads_pure)
  exact leads_atPunct (leads_ite (fun _ => (consumes_missing _).keeps m t)
    fun _ => hgo.expressionWithIn.keeps m t)

omit hgo in
lemma leads_leaf {kind : Kind Node} (h : t.peek.Inner) (hkind : kind.isScript) :
    Leads only m (leaf kind) m.take t :=
  leads_start (Leads.marked fun _ => leads_skip h (leads_marked hkind rfl))

omit hgo in
lemma isScript_of_wordLiteral? {word : String} {kind : Kind Node} (h : wordLiteral? word = some kind) :
    kind.isScript := by
  unfold wordLiteral? at h
  split at h <;> cases h <;> rfl

omit hgo in
lemma startsFunction_of {next : Token} (hname : t.peek.kind = .name) (hnext : t.ahead 1 = next)
    (h : t.peek.text == "function" ∨
      (t.peek.text == "async" && next.isName "function" && !next.newlineBefore)) : StartsFunction t := by
  obtain h | h := h
  · exact .inl (by simpa [Token.isName,hname] using h)
  · simp only [Bool.and_eq_true] at h
    exact .inr ⟨by simpa [Token.isName,hname] using h.1.1,hnext ▸ h.1.2⟩

lemma leads_namedPrimary (h : t.peek.kind = .name) :
    Leads only m (namedPrimary go t.peek (t.ahead 1)) m.take t := by
  unfold namedPrimary
  split
  · rename_i hword
    exact leads_leaf (.of_name h) (isScript_of_wordLiteral? hword)
  refine leads_ite (fun hfunction => ?_) fun _ => ?_
  · rw [Bool.or_eq_true] at hfunction
    exact leads_functionExpression hgo (startsFunction_of h rfl hfunction)
  refine leads_ite (fun _ => ?_) fun _ => ?_
  · exact leads_start (Leads.marked fun _ => (leads_classParts hgo false h).bind fun _ _ =>
      leads_marked rfl rfl)
  refine leads_ite (fun _ => Leads.nested (hgo.newExpression m _ h)) fun _ => ?_
  exact leads_ite (fun _ => consumes_missing _ m t) fun _ => leads_leaf (.of_name h) rfl

lemma consumes_readPrimary : Consumes only (readPrimary go) := by
  refine fun m t => leads_peek ?_
  have hleaf {kind : Kind Node} (h : t.peek.kind ≠ .eof) (hpunct : t.peek.kind ≠ .punct)
      (hkind : kind.isScript) : Leads only m (leaf kind) m.take t := leads_leaf (.of_kind h hpunct) hkind
  cases h : t.peek.kind
  case name => exact leads_ahead (leads_namedPrimary hgo h)
  case punct =>
    have hpunct {text : String} (htext : t.peek.text == text) : t.peek.isPunct text := by
      simpa [Token.isPunct,h] using htext
    refine leads_ite (fun h => leads_groupedExpression hgo (hpunct h)) fun _ => ?_
    refine leads_ite (fun h => leads_arrayLiteral hgo (hpunct h)) fun _ => ?_
    refine leads_ite (fun h => leads_objectLiteral hgo (hpunct h)) fun _ => ?_
    exact consumes_missing _ m t
  case eof => exact consumes_missing _ m t
  all_goals exact hleaf (by simp [h]) (by simp [h]) rfl

omit hgo in
lemma inner_isStep {x : Token} (h : x.isStep) : x.Inner := by
  simp only [Token.isStep,Bool.or_eq_true] at h
  exact h.elim (fun h => .of_isPunct h (by decide)) fun h => .of_isPunct h (by decide)

omit hgo in
/-- A word or a punctuator of a list without brackets. -/
lemma inner_of_contains {x : Token} {texts : List String} (hkind : x.kind ≠ .eof)
    (h : texts.contains x.text) (htexts : ∀ text ∈ texts, text ∉ Token.Inner.brackets) : x.Inner :=
  .of_text hkind (htexts _ (List.contains_iff_mem.mp h))

omit hgo in
lemma inner_isUnaryOperator {x : Token} (h : x.isUnaryOperator) : x.Inner := by
  simp only [Token.isUnaryOperator,Bool.and_eq_true,Bool.or_eq_true,beq_iff_eq] at h
  refine inner_of_contains ?_ h.2 (by decide)
  obtain h | h := h.1 <;> simp [h]

omit hgo in
lemma inner_isAssignmentOperator {x : Token} (h : x.isAssignmentOperator) : x.Inner := by
  simp only [Token.isAssignmentOperator,Bool.and_eq_true,beq_iff_eq] at h
  exact inner_of_contains (by simp [h.1]) h.2 (by decide)

lemma consumes_postfixed : Consumes only (postfixed go) := by
  refine fun m t => leads_start (hgo.operand.bind fun argument u => leads_peek (leads_ite (fun h => ?_)
    fun _ => leads_pure))
  simp only [Bool.and_eq_true] at h
  exact leads_skip (inner_isStep h.1) (leads_layer rfl)

lemma leads_prefixed {layer : Node → Kind Node} (h : t.peek.Inner) (hlayer : ∀ n, (layer n).isScript) :
    Leads only m (prefixed go layer) m.take t :=
  leads_start (Leads.marked fun _ => leads_skip h ((hgo.scripts .unary nofun nofun).nested.keeps.bind
    fun n _ => leads_marked (hlayer n) rfl))

lemma consumes_readUnary : Consumes only (readUnary go) := by
  refine fun m t => leads_peek (leads_ite (fun h => ?_) fun _ => leads_ite (fun h => ?_) fun _ =>
    leads_get (leads_ite (fun h => ?_) fun _ => consumes_postfixed hgo m t))
  · exact leads_prefixed hgo (inner_isUnaryOperator h) fun _ => rfl
  · exact leads_prefixed hgo (inner_isStep h) fun _ => rfl
  · simp only [Bool.and_eq_true] at h
    exact leads_prefixed hgo (.of_isName h.2) fun _ => rfl

omit hgo in
lemma inner_of_binaryPrecedence? {x : Token} {allowIn : Bool} {n : Nat}
    (h : x.binaryPrecedence? allowIn = some n) : x.Inner := by
  unfold Token.binaryPrecedence? at h
  split at h
  · rename_i hkind
    refine .of_text (by simp [hkind]) fun hmem => ?_
    have hnone : ∀ text ∈ Token.Inner.brackets, binaryPunctuators.lookup text = none := by decide
    simp [hnone _ hmem] at h
  · rename_i hkind
    exact .of_name hkind
  · simp at h

lemma keeps_extendBinary (start above : Nat) (left : Node) :
    Keeps only (extendBinary go start above left) := by
  refine fun m t => leads_peek (leads_get ?_)
  split
  · exact leads_pure
  rename_i precedence h
  refine leads_ite (fun _ => leads_pure) fun _ => ?_
  refine Leads.weaken (leads_skip (inner_of_binaryPrecedence? h) ?_)
  exact (hgo.scripts (.binary _) nofun nofun).keeps.bind fun _ _ => (leads_layer rfl).map _

lemma consumes_readBinary (above : Nat) : Consumes only (readBinary go above) := fun m _ =>
  leads_start ((consumes_readUnary hgo).bind fun left u =>
    Keeps.iterate (keeps_extendBinary hgo _ above) left m.take u)

lemma consumes_conditional : Consumes only (conditional go) := by
  refine fun m t => leads_start ((consumes_readBinary hgo 0).bind fun test _ => ?_)
  refine (keeps_eatPunct (by decide)).bind fun _ _ => leads_ite (fun _ => ?_) fun _ => leads_pure
  refine (hgo.assignment.withIn true).bind fun consequent _ => ?_
  refine (consumes_expectPunct (by decide)).bind fun _ _ => ?_
  exact hgo.assignment.bind fun _ _ => leads_layer rfl

lemma keeps_yieldArgument : Keeps only (yieldArgument go) := fun m t => leads_peek (leads_ite
  (fun _ => leads_pure) fun _ => (hgo.assignment.keeps m t).map _)

lemma leads_yieldExpression (h : t.peek.isName "yield") :
    Leads only m (yieldExpression go) m.take t := by
  refine leads_start (Leads.marked fun _ => leads_skip (.of_isName h) ?_)
  refine (keeps_eatPunct (by decide)).bind fun _ _ => ?_
  exact (keeps_yieldArgument hgo).bind fun _ _ => leads_marked rfl rfl

lemma consumes_plainAssignment : Consumes only (plainAssignment go) := by
  refine fun m t => leads_start ((consumes_conditional hgo).bind fun target u => leads_peek (leads_ite
    (fun h => ?_) fun _ => leads_pure))
  have hvalue : Keeps only (do
      let value ← assignment go
      finish (.assign u.peek.text target value) t.front) := fun _ _ =>
    hgo.assignment.keeps.bind fun _ _ => leads_layer rfl
  unfold checkTarget
  split
  · rw [pure_bind]
    refine leads_skip (inner_isAssignmentOperator h) ?_
    exact hvalue m.take _
  · refine leads_report (n := m.take) fun v hspoiled => leads_skip_spoiled hspoiled ?_
    exact hvalue m.take _

lemma consumes_readAssignment : Consumes only (readAssignment go) := by
  refine fun m t => leads_get ?_
  simp only
  split
  · rename_i head hhead
    refine leads_arrowFunction hgo (fun h => ?_) hhead
    simp only [State.startsAsyncArrow,Bool.and_eq_true] at h
    exact h.1.1
  · refine leads_ite (fun h => ?_) fun _ => consumes_plainAssignment hgo m t
    simp only [Bool.and_eq_true] at h
    exact leads_yieldExpression hgo h.2

end

end QmlCodeModel.Grammar
