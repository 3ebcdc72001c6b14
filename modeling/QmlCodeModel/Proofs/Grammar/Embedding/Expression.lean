import QmlCodeModel.Proofs.Grammar.Clean.Expression
import QmlCodeModel.Proofs.Grammar.Embedding.Basic

/-! Expressions and their parts carry over into another source. -/
namespace QmlCodeModel.Grammar

section

variable {e : Embedding} {around : Nat} {stack : List Bracket} {s : State} {go go' : Reader}
  (hgo : Carrying e.budget go go')
include hgo

/-! Expressions in a row, and operands. -/

lemma Carrying.nextExpression (hd : e.Allows around stack 1) :
    Carries e stack True (nextExpression go) (nextExpression go') (e.Holds around) stack s := by
  refine (carries_eatPunct (by decide)).next fun _ _ => carries_ite (fun _ => ?_) fun _ => ?_
  · exact (hgo.assignment hd).bind fun n _ =>
      carries_pure (congrArg (fun x => ([x], true)) n.same) fun h => ⟨trivial,by simpa [Embedding.Holds] using h⟩
  · exact carries_pure rfl fun _ => trivial

lemma Carrying.expression (hd : e.Allows around stack 1) :
    Carries e stack True (expression go) (expression go') (e.Holds around) stack s := by
  refine carries_start fun _ _ => (hgo.assignment hd).bind fun first _ => carries_atPunct ?_
  refine carries_ite (fun _ => ?_) fun _ => carries_pure first.same fun h => ⟨trivial,h⟩
  refine (Carries.collect fun _ => hgo.nextExpression hd).bind fun later _ => carries_finish (by simp) ?_
  simp +contextual [Embedding.Holds,Kind.children]

lemma Carrying.expressionWithIn (hd : e.Allows around stack 1) :
    Carries e stack True (expressionWithIn go) (expressionWithIn go') (e.Holds around) stack s :=
  Carries.withIn true (hgo.expression hd)

lemma Carrying.parenthesized (hd : e.Allows around stack 3) :
    Carries e stack True (parenthesized go) (parenthesized go') (e.Holds around) stack s :=
  carries_between .round (fun _ => hgo.expressionWithIn (hd.enter .round)) fun inner _ =>
    carries_pure inner.same fun h => ⟨trivial,h⟩

lemma Carrying.spreadOrAssignment (hd : e.Allows around stack 1) :
    Carries e stack True (spreadOrAssignment go) (spreadOrAssignment go') (e.Holds around) stack s := by
  refine carries_start fun _ _ => (carries_eatPunct (by decide)).next fun _ _ => ?_
  refine carries_ite (fun _ => ?_) fun _ => hgo.assignment hd
  refine (hgo.assignment hd).bind fun argument _ => carries_finish (by simp) ?_
  simp +contextual [Embedding.Holds,Kind.children]

lemma Carrying.arguments (hd : e.Allows around stack 3) (h : s.peek.isPunct "(") :
    Carries e stack True (arguments go) (arguments go') (e.Holds around) stack s := by
  refine carries_open .round h (carries_upTo .round ?_ fun items _ => carries_pure items.same fun h => ⟨trivial,h⟩)
  refine Carries.withIn true <| Carries.commaSeparated ")" hgo.toFaithful.spreadOrAssignment.one fun _ => ?_
  exact (hgo.spreadOrAssignment (hd.enter .round)).one

omit hgo in
lemma not_isName_of_isPunct {x : Token} {text word : String} (h : x.isPunct text) : ¬x.isName word := by
  simp only [Token.isPunct,Token.isName,Bool.and_eq_true,beq_iff_eq] at h ⊢
  intro hname
  cases h.1.symm.trans hname.1

omit hgo in
/-- A layer that an operand is extended by. -/
lemma carries_extension {before : Prop} {operand : Node} {o o' : Nat} {kind kind' : Kind Node}
    (hkind : kind'.over Node.shape = kind.over Node.shape)
    (hb : e.Fits around kind.children → e.Fits (around + 1) kind.deeper → before) :
    Carries e stack before (some <$> finish kind o) (some <$> finish kind' o')
      (fun next => e.Holds around (next.getD operand)) stack s :=
  Carries.map (f := some) (carries_finish hkind hb) fun n => congrArg some n.same

omit hgo in
lemma carries_memberOf (o o' : Nat) (object : Copy Node) (optional : Bool) :
    Carries e stack (e.Holds around object.left) (memberOf o object.left optional)
      (memberOf o' object.right optional) (fun next => e.Holds around (next.getD object.left)) stack s := by
  refine carries_identifier.choose (fun property _ => ?_) fun _ => carries_pure rfl fun h => ⟨h,trivial⟩
  refine carries_extension (by simp) ?_
  simp +contextual [Embedding.Holds,Kind.children,holdsNone]

lemma Carrying.indexOf (hd : e.Allows around (.square :: stack) 1) (o o' : Nat) (object : Copy Node)
    (optional : Bool) :
    Carries e (.square :: stack) (e.Holds around object.left) (indexOf go o object.left optional)
      (indexOf go' o' object.right optional) (fun next => e.Holds around (next.getD object.left)) stack s := by
  refine carries_upTo .square (hgo.expressionWithIn hd) fun index _ => carries_extension (by simp) ?_
  simp +contextual [Embedding.Holds,Kind.children]

lemma Carrying.callOf (hd : e.Allows around stack 3) (o o' : Nat) (callee : Copy Node) (optional : Bool)
    (h : s.peek.isPunct "(") :
    Carries e stack (e.Holds around callee.left) (callOf go o callee.left optional)
      (callOf go' o' callee.right optional) (fun next => e.Holds around (next.getD callee.left)) stack s := by
  refine (hgo.arguments hd h).bind fun items _ => carries_extension (by simp) ?_
  simp +contextual [Embedding.Holds,Kind.children]

lemma Carrying.extendOperand (hd : e.Allows around stack 2) (o o' : Nat) (allowCalls : Bool)
    (operand : Copy Node) :
    Carries e stack (e.Holds around operand.left) (extendOperand go o allowCalls operand.left)
      (extendOperand go' o' allowCalls operand.right) (fun next => e.Holds around (next.getD operand.left))
      stack s := by
  have hindex : e.Allows around (.square :: stack) 1 := (hd.enter .square).mono (Nat.le_succ _)
  have hcall : e.Allows around stack 3 := hd.mono (Nat.le_succ _)
  refine carries_peek fun _ => carries_ite (fun h => ?_) fun _ => carries_ite (fun h => ?_) fun _ =>
    carries_ite (fun h => ?_) fun _ => carries_ite (fun h => ?_) fun _ => carries_ite (fun h => ?_) fun _ =>
      carries_pure rfl id
  · exact carries_skip (.of_isPunct h (by decide)) (carries_memberOf o o' operand false)
  · simp only [Bool.and_eq_true] at h
    refine carries_skip (.of_isPunct h.1 (by decide)) (carries_atPunct (carries_ite (fun h => ?_) fun _ => ?_))
    · exact hgo.callOf hcall o o' operand true h
    · refine carries_eatOpen .square ?_ (carries_memberOf o o' operand true)
      exact hgo.indexOf hindex o o' operand true
  · exact carries_open .square h (hgo.indexOf hindex o o' operand false)
  · simp only [Bool.and_eq_true] at h
    exact hgo.callOf hcall o o' operand false h.1
  · refine (hgo.primary hd (by simp_all [Token.isName])).bind fun quasi _ => carries_extension (by simp) ?_
    simp +contextual [Embedding.Holds,Kind.children]

lemma Carrying.operandTail (hd : e.Allows around stack 2) (o o' : Nat) (allowCalls : Bool) (operand : Copy Node) :
    Carries e stack (e.Holds around operand.left) (operandTail go o allowCalls operand.left)
      (operandTail go' o' allowCalls operand.right) (e.Holds around) stack s :=
  Carries.iterate (fun operand _ => hgo.extendOperand hd o o' allowCalls operand) operand

lemma Carrying.operandHead (hd : e.Allows around stack 2) :
    Carries e stack True (operandHead go) (operandHead go') (e.Holds around) stack s := by
  refine carries_atName (carries_ite (fun h => ?_) fun h => hgo.primary hd h)
  simp only [Token.isName,Bool.and_eq_true,beq_iff_eq] at h
  exact hgo.nested .newExpression hd h.1

lemma Carrying.operand (hd : e.Allows around stack 2) :
    Carries e stack True (operand go) (operand go') (e.Holds around) stack s :=
  carries_start fun o o' => (hgo.operandHead hd).goOn fun head _ => hgo.operandTail hd o o' true head

lemma Carrying.callee (hd : e.Allows around stack 2) :
    Carries e stack True (callee go) (callee go') (e.Holds around) stack s :=
  carries_start fun o o' => (hgo.operandHead hd).goOn fun head _ => hgo.operandTail hd o o' false head

lemma Carrying.calleeArguments (hd : e.Allows around stack 3) :
    Carries e stack True (calleeArguments go) (calleeArguments go') (e.Holds around) stack s :=
  carries_atPunct (carries_ite (hgo.arguments hd) fun _ => carries_pure rfl fun _ => trivial)

omit hgo in
lemma carries_metaProperty (o o' : Nat) (word : String) (h : s.peek.isPunct ".") :
    Carries e stack True (metaProperty o word) (metaProperty o' word) (e.Holds around) stack s := by
  have howner : Carries e stack True (finish (.identifier word) o) (finish (.identifier word) o')
      (e.Holds around) stack s := carries_finish rfl fun _ _ => trivial
  refine (howner.bindAt fun owner t ht => ?_ : Carries e stack (True ∧ True) _ _ _ _ _).weaken And.left
  have hpeek : t.peek = s.peek := by
    obtain ⟨-,rfl⟩ := Prod.mk.inj (Except.ok.inj ht)
    rfl
  refine carries_skip (.of_isPunct (hpeek ▸ h) (by decide)) ?_
  refine ((carries_memberOf o o' owner false).weaken fun h => ⟨trivial,h⟩).goOn fun ⟨n,n',hsame⟩ _ => ?_
  refine carries_pure ?_ id
  replace hsame : n'.map Node.shape = n.map Node.shape := hsame
  cases n with
  | none =>
    obtain rfl := Option.map_eq_none_iff.mp hsame
    exact owner.same
  | some n =>
    obtain ⟨n',rfl,hn⟩ := Option.map_eq_some_iff.mp hsame
    exact hn

lemma Carrying.readNew (hd : e.Allows around stack 3) (h : s.peek.kind = .name) :
    Carries e stack True (readNew go) (readNew go') (e.Holds around) stack s := by
  refine carries_start fun o o' => carries_bump (.of_name h) fun _ => carries_atPunct ?_
  refine carries_ite (carries_metaProperty o o' s.peek.text) fun _ => ?_
  refine (hgo.callee hd.inner).bind fun callee _ => (hgo.calleeArguments hd).bind fun items _ => ?_
  refine carries_finish (by simp) ?_
  simp +contextual [Embedding.Holds,Kind.children,Kind.deeper]

/-! Blocks, binding targets and functions. -/

lemma Carrying.statementsUntil {stops : Token → Bool} (hstops : Blind stops) (hd : e.Allows around stack 0) :
    Carries e stack True (statementsUntil go stops) (statementsUntil go' stops) (e.Holds around) stack s :=
  Carries.collectUntil hstops fun _ => Carries.everyRound hgo.toFaithful.statement.one fun _ => (hgo.statement hd).one

lemma Carrying.block (hd : e.Allows around stack 3) :
    Carries e stack True (block go) (block go') (e.Holds around) stack s := by
  have hstatements (t : State) : Carries e (.curly :: stack) True (Grammar.statementsUntil go (·.isPunct "\x7d"))
      (Grammar.statementsUntil go' (·.isPunct "\x7d")) (e.Holds (around + 1)) (.curly :: stack) t :=
    hgo.statementsUntil (fun _ _ => rfl) (hd.enter .curly).inner
  refine carries_start fun _ _ => carries_between .curly hstatements fun statements _ => ?_
  refine carries_finish (by simp) ?_
  simp +contextual [Embedding.Holds,Kind.children,Kind.deeper]

lemma Carrying.functionBody (hd : e.Allows around stack 3) (async generator : Bool) :
    Carries e stack True (functionBody go async generator) (functionBody go' async generator) (e.Holds around)
      stack s :=
  Carries.inFunction async generator (Carries.withIn true (hgo.block hd))

lemma Carrying.arrowBody (hd : e.Allows around stack 1) (async : Bool) :
    Carries e stack True (arrowBody go async) (arrowBody go' async) (e.Holds around) stack s :=
  carries_atPunct (carries_ite (fun _ => hgo.functionBody (hd.mono (by decide)) async false) fun _ =>
    Carries.inFunction async false (hgo.assignment hd))

lemma Carrying.bindingTarget (hd : e.Allows around stack 2) :
    Carries e stack True (bindingTarget go) (bindingTarget go') (e.Holds around) stack s := by
  refine carries_peek fun _ => carries_ite (fun h => ?_) fun _ => ?_
  · refine (Carries.withIn true (hgo.primary hd ?_)).bind fun literal _ => carries_pure ?_ ?_
    · simp only [Bool.or_eq_true] at h
      exact h.elim not_isName_of_isPunct not_isName_of_isPunct
    · exact congrArg (fun x => some (BindingTarget.pattern x)) literal.same
    · simp +contextual [Embedding.Holds,nodes,BindingTarget.children]
  · refine carries_bindingIdentifier.choose (fun name _ => carries_pure ?_ fun _ => ⟨trivial,trivial⟩)
      fun _ => carries_pure rfl fun _ => ⟨trivial,trivial⟩
    exact congrArg (fun x => some (BindingTarget.name x)) name.same

lemma Carrying.defaultValue (hd : e.Allows around stack 1) :
    Carries e stack True (defaultValue go) (defaultValue go') (e.Holds around) stack s :=
  carries_optionally (carries_eatPunct (by decide)) fun _ => hgo.assignment hd

lemma Carrying.formalParameter (hd : e.Allows around stack 1) :
    Carries e stack True (formalParameter go) (formalParameter go') (e.Holds around) stack s := by
  refine (carries_eatPunct (by decide)).next fun rest _ => (hgo.bindingTarget (hd.mono (Nat.le_succ _))).choose
    (fun target _ => ?_) fun _ => carries_pure rfl fun _ => ⟨trivial,by simp [Embedding.Holds]⟩
  refine (hgo.defaultValue hd).bind fun default _ => carries_pure ?_ ?_
  · simp [strip,FormalParameter.over]
  · simp +contextual [Embedding.Holds,nodes,FormalParameter.children]

lemma Carrying.formalParameters (hd : e.Allows around stack 3) :
    Carries e stack True (formalParameters go) (formalParameters go') (e.Holds around) stack s := by
  refine carries_expect (fun _ _ => rfl)
    (fun h hs => hs.advance (kind_ne_eof_of_isPunct _ h) (Bracket.step_of_opening .round stack h)) (fun _ => ?_)
    (sticks_pure [])
  refine carries_upTo .round ?_ fun params _ => carries_pure params.same fun h => ⟨trivial,h⟩
  refine Carries.withIn true <| Carries.commaSeparated ")" hgo.toFaithful.formalParameter fun _ => ?_
  exact hgo.formalParameter (hd.enter .round)

omit hgo in
lemma carries_declaredName {isName : Token → Bool} (hname : Blind isName) (required : Bool)
    (missing : GrammarFault) :
    Carries e stack True (declaredName required isName missing) (declaredName required isName missing) holdsNone
      stack s := by
  refine carries_peek fun span => ?_
  rw [hname s.peek span]
  refine carries_ite (fun _ => carries_bindingIdentifier) fun _ => ?_
  exact (carries_reportIf required missing).next fun _ _ => carries_pure rfl fun _ => trivial

lemma Carrying.function (hd : e.Allows around stack 3) (nameRequired : Bool) (h : StartsFunction s) :
    Carries e stack True (function go nameRequired) (function go' nameRequired) (e.Holds around) stack s := by
  have hafter (async : Bool) (t : State) (h : t.peek.isName "function") : Carries e stack True (do
      discard bump
      let generator ← eatPunct "*"
      let name ← declaredName nameRequired (·.kind == .name) .expectedFunctionName
      let params ← Grammar.formalParameters go
      let body ← Grammar.functionBody go async generator
      pure ({ name, params, body, arrow := false, async, generator } : FunctionParts Node)) (do
      discard bump
      let generator ← eatPunct "*"
      let name ← declaredName nameRequired (·.kind == .name) .expectedFunctionName
      let params ← Grammar.formalParameters go'
      let body ← Grammar.functionBody go' async generator
      pure ({ name, params, body, arrow := false, async, generator } : FunctionParts Node))
      (e.Holds around) stack t := by
    refine carries_skip (.of_isName h) ((carries_eatPunct (by decide)).next fun generator _ => ?_)
    refine (carries_declaredName (fun _ _ => rfl) nameRequired .expectedFunctionName).bind fun name _ => ?_
    refine (hgo.formalParameters hd).bind fun params _ => (hgo.functionBody hd async generator).bind fun body _ => ?_
    refine carries_pure (by simp [strip,FunctionParts.over]) ?_
    simp +contextual [Embedding.Holds,nodes,FunctionParts.children,holdsNone]
  refine carries_eat (fun _ _ => rfl) inner_isName (fun hasync => ?_) fun hasync => ?_
  · refine hafter true s.advance ?_
    obtain h | h := h
    · simp only [Token.isName,Bool.and_eq_true,beq_iff_eq] at h hasync
      exact absurd (h.2.symm.trans hasync.2) (by decide)
    · exact s.peek_advance ▸ h.2
  · exact hafter false s (h.resolve_right fun h => hasync h.1)

lemma Carrying.functionDeclaration (hd : e.Allows around stack 3) (h : StartsFunction s) :
    Carries e stack True (functionDeclaration go) (functionDeclaration go') (e.Holds around) stack s :=
  carries_start fun _ _ => (hgo.function hd true h).bind fun parts _ =>
    carries_finish (by simp) fun h _ => ⟨trivial,h⟩

lemma Carrying.functionExpression (hd : e.Allows around stack 3) (h : StartsFunction s) :
    Carries e stack True (functionExpression go) (functionExpression go') (e.Holds around) stack s :=
  carries_start fun _ _ => (hgo.function hd false h).bind fun parts _ =>
    carries_finish (by simp) fun h _ => ⟨trivial,h⟩

lemma Carrying.arrowParameters (hd : e.Allows around stack 3) {head : ArrowHead}
    (h : head = .name → s.peek.isBindable) :
    Carries e stack True (arrowParameters go head) (arrowParameters go' head) (e.Holds around) stack s := by
  cases head with
  | name => exact carries_bump (inner_of_isBindable (h rfl)) fun _ => carries_pure rfl fun _ => trivial
  | list => exact hgo.formalParameters hd

lemma Carrying.arrowFunction (hd : e.Allows around stack 2) {async : Bool} {head : ArrowHead}
    (hasync : async → s.peek.isName "async") (hhead : s.arrowHeadAt (if async then 1 else 0) = some head) :
    Carries e stack True (arrowFunction go async head) (arrowFunction go' async head) (e.Holds around) stack s := by
  have hafter (o o' : Nat) (t : State) (h : head = .name → t.peek.isBindable) : Carries e stack True (do
      let params ← Grammar.arrowParameters go head
      discard (expectPunct "=>")
      let body ← Grammar.arrowBody go async
      finish (.functionExpression { name := none, params, body, arrow := true, async, generator := false }) o) (do
      let params ← Grammar.arrowParameters go' head
      discard (expectPunct "=>")
      let body ← Grammar.arrowBody go' async
      finish (.functionExpression { name := none, params, body, arrow := true, async, generator := false }) o')
      (e.Holds around) stack t := by
    refine (hgo.arrowParameters (hd.mono (Nat.le_succ _)) h).bind fun params _ => ?_
    refine (carries_punct (by decide)).next fun _ _ => (hgo.arrowBody hd.inner async).bind fun body _ => ?_
    refine carries_finish (by simp [FunctionParts.over]) ?_
    simp +contextual [Embedding.Holds,nodes,Kind.children,FunctionParts.children,Kind.deeper]
  refine carries_start fun o o' => carries_skipIf (fun h => .of_isName (hasync h)) (fun h => ?_) fun h => ?_
  · refine hafter o o' s.advance fun hname => ?_
    rw [hname,if_pos h] at hhead
    exact s.peek_advance ▸ isBindable_of_arrowHeadAt hhead
  · refine hafter o o' s fun hname => ?_
    rw [hname,if_neg (by simp [h])] at hhead
    exact isBindable_of_arrowHeadAt hhead

/-! Members of object literals and of classes. -/

omit hgo in
lemma carries_propertyWord : Carries e stack True propertyWord propertyWord holdsNone stack s := by
  refine carries_peek fun _ => carries_ahead fun _ => carries_ite (fun h => ?_) fun _ =>
    carries_ite (fun h => ?_) fun _ => carries_pure rfl fun _ => trivial
  · simp only [Bool.and_eq_true,Bool.or_eq_true] at h
    exact carries_skip (h.1.elim .of_isName .of_isName) (carries_pure rfl fun _ => trivial)
  · simp only [Bool.and_eq_true] at h
    exact carries_skip (.of_isName h.1.1) (carries_pure rfl fun _ => trivial)

omit hgo in
lemma carries_propertyModifiers :
    Carries e stack True propertyModifiers propertyModifiers holdsNone stack s :=
  carries_propertyWord.next fun _ _ => (carries_eatPunct (by decide)).next fun _ _ =>
    carries_ite (fun _ => carries_pure rfl fun _ => trivial) fun _ => carries_pure rfl fun _ => trivial

lemma Carrying.propertyKey (hd : e.Allows around stack 1) :
    Carries e stack True (propertyKey go) (propertyKey go') (e.Holds around) stack s := by
  have hcomputed : Carries (α := PropertyKey Node) e stack True (do
      if s.peek.isPunct "[" then
        discard bump
        let key ← withIn true (Grammar.assignment go)
        discard (expectPunct "]")
        pure (.computed key)
      else
        reportHere .expectedPropertyName
        pure (.name "")) (do
      if s.peek.isPunct "[" then
        discard bump
        let key ← withIn true (Grammar.assignment go')
        discard (expectPunct "]")
        pure (.computed key)
      else
        reportHere .expectedPropertyName
        pure (.name "")) (e.Holds around) stack s := by
    have hin : e.Allows around (.square :: stack) 1 := (hd.mono (Nat.le_add_right 1 2)).enter .square
    refine carries_ite (fun h => ?_) fun _ => carries_reportHere (sticks_pure _)
    refine carries_open .square h (carries_upTo .square (Carries.withIn true (hgo.assignment hin)) fun key _ => ?_)
    refine carries_pure (congrArg PropertyKey.computed key.same) ?_
    simp +contextual [Embedding.Holds,nodes,PropertyKey.children]
  refine carries_peek fun span => ?_
  dsimp only
  rw [show ({ s.peek with span } : Token).isPunct "[" = s.peek.isPunct "[" from rfl]
  cases h : s.peek.kind
  case name => exact carries_skip (.of_name h) (carries_pure rfl fun _ => trivial)
  case string => exact carries_skip (.of_kind (by simp [h]) (by simp [h])) (carries_pure rfl fun _ => trivial)
  case number => exact carries_skip (.of_kind (by simp [h]) (by simp [h])) (carries_pure rfl fun _ => trivial)
  all_goals exact hcomputed

lemma Carrying.method (hd : e.Allows around stack 3) (async generator : Bool) :
    Carries e stack True (method go async generator) (method go' async generator) (e.Holds around) stack s := by
  refine carries_start fun _ _ => (hgo.formalParameters hd).bind fun params _ => ?_
  refine (hgo.functionBody hd async generator).bind fun body _ => carries_finish (by simp [FunctionParts.over]) ?_
  simp +contextual [Embedding.Holds,nodes,Kind.children,FunctionParts.children]

section

variable (key : Copy (PropertyKey Node)) (modifiers : PropertyModifiers) (isStatic : Bool) (o o' : Nat)

lemma Carrying.methodProperty (hd : e.Allows around stack 1) :
    Carries e stack (e.Holds around key.left) (methodProperty go key.left modifiers isStatic o)
      (methodProperty go' key.right modifiers isStatic o') (e.Holds around) stack s := by
  refine (hgo.method (hd.mono (by decide)) _ _).bind fun method _ => carries_finish (by simp) ?_
  simp +contextual [Embedding.Holds,nodes,Kind.children]

lemma Carrying.fieldProperty (hd : e.Allows around stack 1) :
    Carries e stack (e.Holds around key.left) (fieldProperty go key.left isStatic o)
      (fieldProperty go' key.right isStatic o') (e.Holds around) stack s := by
  have hvalue (t : State) : Carries e stack True (withIn true (Grammar.assignment go))
      (withIn true (Grammar.assignment go')) (e.Holds around) stack t :=
    Carries.withIn true (hgo.assignment hd)
  refine (carries_optionally (carries_eatPunct (by decide)) hvalue).bind fun value _ => ?_
  refine carries_endStatement.next fun _ _ => carries_finish (by simp) ?_
  simp +contextual [Embedding.Holds,nodes,Kind.children]

lemma Carrying.shorthandValue (hd : e.Allows around stack 1) (name : String) :
    Carries e stack True (shorthandValue go name o) (shorthandValue go' name o') (e.Holds around) stack s := by
  have hname : Carries e stack True (finish (.identifier name) o) (finish (.identifier name) o')
      (e.Holds around) stack s := carries_finish rfl fun _ _ => trivial
  refine hname.bind fun ident _ => (carries_eatPunct (by decide)).next fun _ _ => ?_
  refine carries_ite (fun _ => ?_) fun _ => carries_pure ident.same fun h => ⟨trivial,h⟩
  refine (hgo.assignment hd).bind fun default _ => carries_finish (by simp) ?_
  simp +contextual [Embedding.Holds,Kind.children]

omit hgo in
lemma plainName?_copy : plainName? key.right = plainName? key.left := by
  obtain ⟨key,key',h⟩ := key
  change key'.over Node.shape = key.over Node.shape at h
  cases key <;> cases key' <;> first | rfl | cases h
  rfl

lemma Carrying.literalProperty (hd : e.Allows around stack 1) (k k' : Nat) :
    Carries e stack (e.Holds around key.left) (literalProperty go key.left k modifiers isStatic o)
      (literalProperty go' key.right k' modifiers isStatic o') (e.Holds around) stack s := by
  refine (carries_eatPunct (by decide)).next fun _ _ => carries_ite (fun _ => ?_) fun _ => ?_
  · refine (hgo.assignment hd).bind fun value _ => carries_finish (by simp) ?_
    simp +contextual [Embedding.Holds,nodes,Kind.children]
  rw [plainName?_copy]
  cases hname : plainName? key.left with
  | some name =>
    have hkey : e.Fits around (nodes key.left) := by
      cases hkey : key.left <;> simp_all [plainName?,nodes,PropertyKey.children]
    refine (hgo.shorthandValue k k' hd name).bind fun value _ => carries_finish (by simp [PropertyKey.over]) ?_
    simp +contextual [Embedding.Holds,Kind.children,PropertyKey.children,hkey]
  | none =>
    refine carries_reportHere ?_
    rintro _ _ _ ⟨⟩
    exact id

end

lemma Carrying.namedProperty (hd : e.Allows around stack 1) (inClass isStatic : Bool) (o o' : Nat) :
    Carries e stack True (namedProperty go inClass isStatic o) (namedProperty go' inClass isStatic o')
      (e.Holds around) stack s := by
  refine carries_propertyModifiers.next fun modifiers _ => carries_start fun k k' => ?_
  refine Carries.goOn (hgo.propertyKey hd) fun key _ => carries_atPunct ?_
  refine carries_ite (fun _ => hgo.methodProperty key modifiers isStatic o o' hd) fun _ => ?_
  exact carries_ite (fun _ => hgo.fieldProperty key isStatic o o' hd) fun _ =>
    hgo.literalProperty key modifiers isStatic o o' hd k k'

lemma Carrying.objectProperty (hd : e.Allows around stack 1) :
    Carries e stack True (objectProperty go) (objectProperty go') (e.Holds around) stack s := by
  refine carries_start fun o o' => (carries_eatPunct (by decide)).next fun _ _ => ?_
  refine carries_ite (fun _ => ?_) fun _ => hgo.namedProperty hd false false o o'
  refine (hgo.assignment hd).bind fun argument _ => carries_finish (by simp [PropertyKey.over]) ?_
  simp +contextual [Embedding.Holds,Kind.children]

lemma Carrying.classElement (hd : e.Allows around stack 1) :
    Carries e stack True (classElement go) (classElement go') (e.Holds around) stack s := by
  refine carries_start fun o o' => carries_ahead fun _ => carries_peek fun _ => ?_
  refine carries_skipIf (fun h => ?_) (fun _ => ?_) fun _ => ?_
  · simp only [Bool.and_eq_true] at h
    exact .of_isName h.1
  all_goals exact hgo.namedProperty hd true _ o o'

lemma Carrying.classElements (hd : e.Allows around stack 1) :
    Carries e stack True (classElements go) (classElements go') (e.Holds around) stack s := by
  refine Carries.collectUntil (fun _ _ => rfl) fun _ => (carries_eatPunct (by decide)).next fun _ _ => ?_
  refine carries_ite (fun _ => carries_pure rfl fun _ => trivial) fun _ => ?_
  exact Carries.everyRound hgo.toFaithful.classElement.one fun _ => (hgo.classElement hd).one

/-- What a class extends stands one level deeper than its members. -/
lemma Carrying.classParts (hd : e.Allows around stack 3) (nameRequired : Bool) (h : s.peek.kind = .name) :
    Carries e stack True (classParts go nameRequired) (classParts go' nameRequired)
      (fun parts => e.Fits around parts.elements ∧ e.Fits (around + 1) parts.heritage.toList) stack s := by
  refine carries_skip (.of_name h)
    ((carries_declaredName (fun _ _ => rfl) nameRequired .expectedClassName).bind fun name _ => ?_)
  refine (carries_optionally (carries_eatName "extends") fun _ => hgo.operand hd.inner).bind fun heritage _ => ?_
  refine carries_between .curly (fun _ => hgo.classElements (hd.enter .curly)) fun elements _ => ?_
  refine carries_pure (by simp [strip,ClassParts.over]) ?_
  simp +contextual [Embedding.Holds,holdsNone]

/-! Expressions proper. -/

lemma Carrying.arrayElements (hd : e.Allows around stack 1) :
    Carries e stack True (arrayElements go) (arrayElements go') (e.Holds around) stack s := by
  refine Carries.collectUntil (fun _ _ => rfl) fun _ => (carries_eatPunct (by decide)).next fun _ _ => ?_
  refine carries_ite (fun _ => carries_pure rfl fun _ => trivial) fun _ => ?_
  refine Carries.commaRound (hgo.toFaithful.spreadOrAssignment.map some).one fun _ => Carries.one ?_
  refine Carries.map (f := some) ?_ fun n => congrArg some n.same
  simpa using hgo.spreadOrAssignment hd

lemma Carrying.arrayLiteral (hd : e.Allows around stack 3) (h : s.peek.isPunct "[") :
    Carries e stack True (arrayLiteral go) (arrayLiteral go') (e.Holds around) stack s := by
  refine carries_start fun _ _ => carries_open .square h (carries_upTo .square
    (Carries.withIn true (hgo.arrayElements (hd.enter .square))) fun elements _ => ?_)
  refine carries_finish (by simp) ?_
  simp +contextual [Embedding.Holds,nodes,Kind.children,List.filterMap_eq_flatMap_toList]

lemma Carrying.objectLiteral (hd : e.Allows around stack 3) (h : s.peek.isPunct "\x7b") :
    Carries e stack True (objectLiteral go) (objectLiteral go') (e.Holds around) stack s := by
  have hproperties (t : State) : Carries e (.curly :: stack) True
      (commaSeparated "\x7d" (one (Grammar.objectProperty go)))
      (commaSeparated "\x7d" (one (Grammar.objectProperty go'))) (e.Holds around) (.curly :: stack) t :=
    Carries.commaSeparated "\x7d" hgo.toFaithful.objectProperty.one fun _ =>
      (hgo.objectProperty (hd.enter .curly)).one
  refine carries_start fun _ _ => carries_open .curly h (carries_upTo .curly (Carries.withIn true (hproperties _))
    fun properties _ => carries_finish (by simp) ?_)
  simp +contextual [Embedding.Holds,Kind.children]

lemma Carrying.groupedExpression (hd : e.Allows around stack 3) (h : s.peek.isPunct "(") :
    Carries e stack True (groupedExpression go) (groupedExpression go') (e.Holds around) stack s := by
  refine carries_open .round h (carries_upTo .round (carries_atPunct ?_) fun inner _ =>
    carries_pure inner.same fun h => ⟨trivial,h⟩)
  exact carries_ite (fun _ => carries_missing) fun _ => hgo.expressionWithIn (hd.enter .round)

lemma Carrying.namedPrimary (hd : e.Allows around stack 3) (h : s.peek.kind = .name)
    (hnew : ¬s.peek.isName "new") (span next : Span) :
    Carries e stack True (namedPrimary go s.peek (s.ahead 1))
      (namedPrimary go' { s.peek with span } { s.ahead 1 with span := next }) (e.Holds around) stack s := by
  unfold Grammar.namedPrimary
  dsimp only
  cases wordLiteral? s.peek.text with
  | some kind => exact carries_leaf (.of_name h)
  | none =>
    refine carries_ite (fun hfunction => ?_) fun _ => carries_ite (fun _ => ?_) fun _ =>
      carries_ite (fun htext => ?_) fun _ => ?_
    · rw [Bool.or_eq_true] at hfunction
      exact hgo.functionExpression hd (startsFunction_of h rfl hfunction)
    · refine carries_start fun _ _ => Carries.goOn (hgo.classParts hd false h) fun parts _ => ?_
      refine carries_finish (by simp) ?_
      simp +contextual [Kind.children,ClassParts.children,Kind.deeper]
    · exact absurd (by simpa [Token.isName,h] using htext) hnew
    · exact carries_ite (fun _ => carries_missing) fun _ => carries_leaf (.of_name h)

lemma Carrying.readPrimary (hd : e.Allows around stack 3) (hnew : ¬s.peek.isName "new") :
    Carries e stack True (readPrimary go) (readPrimary go') (e.Holds around) stack s := by
  have hleaf {kind : Kind Node} (h : s.peek.kind ≠ .eof) (hpunct : s.peek.kind ≠ .punct) :
      Carries e stack True (leaf kind) (leaf kind) (e.Holds around) stack s := carries_leaf (.of_kind h hpunct)
  refine carries_peek fun span => ?_
  dsimp only
  cases h : s.peek.kind
  case name => exact carries_ahead fun next => hgo.namedPrimary hd h hnew span next
  case punct =>
    have hpunct {text : String} (htext : s.peek.text == text) : s.peek.isPunct text := by
      simpa [Token.isPunct,h] using htext
    refine carries_ite (fun h => hgo.groupedExpression hd (hpunct h)) fun _ => ?_
    refine carries_ite (fun h => hgo.arrayLiteral hd (hpunct h)) fun _ => ?_
    exact carries_ite (fun h => hgo.objectLiteral hd (hpunct h)) fun _ => carries_missing
  case eof => exact carries_missing
  all_goals exact hleaf (by simp [h]) (by simp [h])

lemma Carrying.postfixed (hd : e.Allows around stack 2) :
    Carries e stack True (postfixed go) (postfixed go') (e.Holds around) stack s := by
  refine carries_start fun _ _ => (hgo.operand hd).bind fun argument _ => carries_peek fun _ => ?_
  refine carries_ite (fun h => ?_) fun _ => carries_pure argument.same fun h => ⟨trivial,h⟩
  simp only [Bool.and_eq_true] at h
  refine carries_skip (inner_isStep h.1) (carries_finish (by simp) ?_)
  simp +contextual [Embedding.Holds,Kind.children]

/-- An operator in front, whose argument stands one level deeper. -/
lemma Carrying.prefixed (hd : e.Allows around stack 2) {layer : Node → Kind Node} (hpeek : s.peek.Inner)
    (hlayer : ∀ n : Copy Node, (layer n.right).over Node.shape = (layer n.left).over Node.shape)
    (hdeeper : ∀ n, (layer n).deeper = [n]) :
    Carries e stack True (prefixed go layer) (prefixed go' layer) (e.Holds around) stack s := by
  refine carries_start fun _ _ => carries_skip hpeek ?_
  refine (hgo.nested .unary hd.inner trivial).bind fun argument _ => carries_finish (hlayer argument) fun _ h => ?_
  rw [hdeeper] at h
  exact ⟨trivial,h⟩

lemma Carrying.readUnary (hd : e.Allows around stack 2) :
    Carries e stack True (readUnary go) (readUnary go') (e.Holds around) stack s := by
  refine carries_peek fun _ => carries_ite (fun h => ?_) fun _ => carries_ite (fun h => ?_) fun _ =>
    carries_get fun s' hs => ?_
  · exact hgo.prefixed hd (inner_isUnaryOperator h) (by simp) fun _ => rfl
  · exact hgo.prefixed hd (inner_isStep h) (by simp) fun _ => rfl
  · rw [hs.inAsync]
    refine carries_ite (fun h => ?_) fun _ => hgo.postfixed hd
    simp only [Bool.and_eq_true] at h
    exact hgo.prefixed hd (.of_isName h.2) (by simp) fun _ => rfl

lemma Carrying.extendBinary (hd : e.Allows around stack 2) (o o' above : Nat) (left : Copy Node) :
    Carries e stack (e.Holds around left.left) (extendBinary go o above left.left)
      (extendBinary go' o' above left.right) (fun next => e.Holds around (next.getD left.left)) stack s := by
  refine carries_peek fun span => carries_get fun s' hs => ?_
  have hplace : { s.peek with span }.binaryPrecedence? s.allowIn = s.peek.binaryPrecedence? s.allowIn := rfl
  rw [hs.allowIn,hplace]
  cases h : s.peek.binaryPrecedence? s.allowIn with
  | none => exact carries_pure rfl id
  | some precedence =>
    refine carries_ite (fun _ => carries_pure rfl id) fun _ => ?_
    refine carries_skipOne (inner_of_binaryPrecedence? h) ?_
    let e' : Embedding := { e with budget := e.budget - 1 }
    let precedence := if s.peek.text == "**" then precedence - 1 else precedence
    have hright : Carries e' stack True (go (.binary precedence)) (go' (.binary precedence)) (e.Holds around) stack
        s.advance := hgo.carries (.binary precedence) e' (Nat.le_refl _) around stack hd s.advance trivial
    refine hright.bind fun right _ => carries_extension (by simp) fun h _ => ?_
    change e.Fits around [left.left, right.left] at h
    simpa [Embedding.Holds] using h

lemma Carrying.readBinary (hd : e.Allows around stack 2) (above : Nat) :
    Carries e stack True (readBinary go above) (readBinary go' above) (e.Holds around) stack s :=
  carries_start fun o o' => (hgo.readUnary hd).goOn fun left _ =>
    Carries.iterate (fun left _ => hgo.extendBinary hd o o' above left) left

lemma Carrying.conditional (hd : e.Allows around stack 2) :
    Carries e stack True (conditional go) (conditional go') (e.Holds around) stack s := by
  refine carries_start fun _ _ => (hgo.readBinary hd 0).bind fun test _ => (carries_eatPunct (by decide)).next
    fun _ _ => carries_ite (fun _ => ?_) fun _ => carries_pure test.same fun h => ⟨trivial,h⟩
  refine (Carries.withIn true (hgo.assignment hd.inner)).bind fun consequent _ => ?_
  refine (carries_punct (by decide)).next fun _ _ => (hgo.assignment hd.inner).bind fun alternate _ => ?_
  refine carries_finish (by simp) ?_
  simp +contextual [Embedding.Holds,Kind.children,Kind.deeper]

lemma Carrying.yieldArgument (hd : e.Allows around stack 1) :
    Carries e stack True (yieldArgument go) (yieldArgument go') (e.Holds around) stack s := by
  refine carries_peek fun _ => carries_ite (fun _ => carries_pure rfl fun _ => trivial) fun _ => ?_
  refine Carries.map (f := some) ?_ fun n => congrArg some n.same
  simpa using hgo.assignment hd

lemma Carrying.yieldExpression (hd : e.Allows around stack 2) (h : s.peek.isName "yield") :
    Carries e stack True (yieldExpression go) (yieldExpression go') (e.Holds around) stack s := by
  refine carries_start fun _ _ => carries_skip (.of_isName h) ((carries_eatPunct (by decide)).next fun _ _ => ?_)
  refine (hgo.yieldArgument hd.inner).bind fun argument _ => carries_finish (by simp) ?_
  simp +contextual [Embedding.Holds,Kind.children,Kind.deeper]

omit hgo in
/-- What can be assigned to is seen in its layer. -/
lemma isAssignable_over (operator : String) (target : Node) : isAssignable operator target =
    match target.kind.over fun _ => () with
    | .identifier _ | .member _ _ _ | .index _ _ _ => true
    | .array _ | .object _ => operator == "="
    | _ => false := by
  obtain ⟨id,span,kind⟩ := target
  cases kind <;> rfl

omit hgo in
lemma isAssignable_copy (operator : String) (target : Copy Node) :
    isAssignable operator target.right = isAssignable operator target.left := by
  have hshape := target.shape_node
  rw [Node.shape_eq,Node.shape_eq target.left] at hshape
  rw [isAssignable_over,isAssignable_over,(Shape.mk.inj hshape).1]

lemma Carrying.plainAssignment (hd : e.Allows around stack 2) :
    Carries e stack True (plainAssignment go) (plainAssignment go') (e.Holds around) stack s := by
  refine carries_start fun _ _ => (hgo.conditional hd).bind fun target t => carries_peek fun _ =>
    carries_ite (fun h => ?_) fun _ => carries_pure target.same fun h => ⟨trivial,h⟩
  unfold checkTarget
  dsimp only
  rw [isAssignable_copy]
  split
  · rw [pure_bind,pure_bind]
    refine carries_skip (inner_isAssignmentOperator h) ((hgo.assignment hd.inner).bind fun value _ => ?_)
    refine carries_finish (by simp) ?_
    simp +contextual [Embedding.Holds,Kind.children,Kind.deeper]
  · refine carries_report _ (sticks_skip.bind fun _ => Sticks.bind ?_ fun _ => sticks_finish _ _)
    exact Carries.sticks fun _ => hgo.assignment hd.inner

lemma Carrying.readAssignment (hd : e.Allows around stack 2) :
    Carries e stack True (readAssignment go) (readAssignment go') (e.Holds around) stack s := by
  refine carries_get fun s' hs => ?_
  dsimp only
  rw [hs.startsAsyncArrow,hs.arrowHeadAt]
  cases hhead : s.arrowHeadAt (if s.startsAsyncArrow then 1 else 0) with
  | some head =>
    refine hgo.arrowFunction hd (fun h => ?_) hhead
    simp only [State.startsAsyncArrow,Bool.and_eq_true] at h
    exact h.1.1
  | none =>
    rw [hs.inGenerator,hs.eq_peek]
    refine carries_ite (fun h => ?_) fun _ => hgo.plainAssignment hd
    simp only [Bool.and_eq_true] at h
    exact hgo.yieldExpression hd h.2

end

end QmlCodeModel.Grammar
