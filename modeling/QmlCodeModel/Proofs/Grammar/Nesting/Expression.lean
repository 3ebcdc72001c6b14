import QmlCodeModel.Proofs.Grammar.Nesting.Basic

/-! How deep expressions are nested, from operands and functions up to assignments. -/
namespace QmlCodeModel.Grammar

section

variable {m depth : Nat} {go : Reader} (hgo : Confines m go)
include hgo

/-! Operands. -/

lemma nests_nextExpression : Nests m depth (room depth) (nextExpression go) := by
  refine (reading_eatPunct ",").nests_bind fun _ => nests_ite (fun _ => ?_) fun _ => nests_pure (by simp)
  exact (nests_assignment hgo).bind fun _ h => nests_pure (by simpa using h)

lemma nests_expression : Nests m depth (room depth + 1) (expression go) := by
  refine nests_start fun _ => (nests_assignment hgo).bind fun first hfirst => ?_
  refine (reading_atPunct ",").nests_bind fun _ => nests_ite (fun _ => ?_) fun _ => ?_
  · refine (nests_collect (nests_nextExpression hgo)).after hfirst fun later h => ?_
    exact nests_finish h (by simp [Kind.children]) (Nat.lt_succ_self _)
  · exact nests_pure (hfirst.mono (Nat.le_succ _))

lemma nests_expressionWithIn : Nests m depth (room depth + 1) (expressionWithIn go) :=
  nests_withIn true (nests_expression hgo)

lemma nests_parenthesized : Nests m depth (room depth + 1) (parenthesized go) := by
  refine (reading_punct "(").nests_bind fun _ => (nests_expressionWithIn hgo).bind fun inner h => ?_
  exact (reading_punct ")").nests_bind fun _ => nests_pure h

lemma nests_spreadOrAssignment : Nests m depth (room depth + 1) (spreadOrAssignment go) := by
  refine nests_start fun _ => (reading_eatPunct "...").nests_bind fun _ => nests_ite (fun _ => ?_) fun _ => ?_
  · exact (nests_assignment hgo).bind fun argument h => nests_finish h rfl (Nat.lt_succ_self _)
  · exact (nests_assignment hgo).mono (Nat.le_succ _)

lemma nests_arguments : Nests m depth (room depth + 1) (arguments go) := by
  refine reading_skip.nests_bind fun _ => ?_
  refine (nests_withIn true (nests_commaSeparated (nests_one (nests_spreadOrAssignment hgo)))).bind
    fun items h => ?_
  exact (reading_punct ")").nests_bind fun _ => nests_pure h

omit hgo in
lemma nests_memberOf {most start : Nat} {object : Node} {optional : Bool} (h : object.nesting ≤ most) :
    Nests m depth most (memberOf start object optional) := by
  refine reading_identifier.nests_bind fun property => ?_
  cases property with
  | none => exact nests_pure (by simp)
  | some property =>
    refine nests_map (fun s => nests_put ?_ ?_ s) fun n => by simp
    · simpa [Kind.uncounted,Kind.spine,Kind.exponent] using h
    · simp [Kind.inner]

lemma nests_indexOf {start : Nat} {object : Node} {optional : Bool} (h : object.nesting ≤ room depth + 2) :
    Nests m depth (room depth + 2) (indexOf go start object optional) := by
  refine (nests_expressionWithIn hgo).bind fun index hindex => (reading_punct "]").nests_bind fun _ => ?_
  refine nests_map (nests_around ?_ hindex (Nat.lt_succ_self _)) fun n => by simp
  simpa [Kind.uncounted,Kind.spine,Kind.exponent] using h

lemma nests_callOf {start : Nat} {callee : Node} {optional : Bool} (h : callee.nesting ≤ room depth + 2) :
    Nests m depth (room depth + 2) (callOf go start callee optional) := by
  refine (nests_arguments hgo).bind fun items hitems => ?_
  refine nests_map (nests_around ?_ (by simpa [Kind.inner] using hitems) (Nat.lt_succ_self _)) fun n => by simp
  simpa [Kind.uncounted,Kind.spine,Kind.exponent] using h

/-- A tail goes around its operand, and nests what stands in it. -/
lemma nests_extendOperand {start : Nat} {allowCalls : Bool} {operand : Node}
    (h : operand.nesting ≤ room depth + 2) :
    Nests m depth (room depth + 2) (extendOperand go start allowCalls operand) := by
  refine reading_peek.nests_bind fun t => nests_ite (fun _ => ?_) fun _ => ?_
  · exact reading_skip.nests_bind fun _ => nests_memberOf h
  refine nests_ite (fun _ => reading_skip.nests_bind fun _ => ?_) fun _ => ?_
  · refine (reading_atPunct "(").nests_bind fun _ => nests_ite (fun _ => nests_callOf hgo h) fun _ => ?_
    refine (reading_eatPunct "[").nests_bind fun _ => nests_ite (fun _ => nests_indexOf hgo h) fun _ => ?_
    exact nests_memberOf h
  refine nests_ite (fun _ => reading_skip.nests_bind fun _ => nests_indexOf hgo h) fun _ => ?_
  refine nests_ite (fun _ => nests_callOf hgo h) fun _ => nests_ite (fun _ => ?_) fun _ => nests_pure (by simp)
  refine (nests_primary hgo).bind fun quasi hquasi => ?_
  refine nests_map (nests_around ?_ hquasi (by omega)) fun n => by simp
  simpa [Kind.uncounted,Kind.spine,Kind.exponent] using h

lemma nests_operandHead : Nests m depth (room depth) (operandHead go) := by
  refine (reading_atName "new").nests_bind fun _ => nests_ite (fun _ => ?_) fun _ => nests_primary hgo
  exact nests_goal hgo .newExpression (by decide)

/-- An operand, with or without calls in its tail. -/
lemma nests_headAndTail (allowCalls : Bool) : Nests m depth (room depth + 2) (do
    let start ← start
    let head ← operandHead go
    operandTail go start allowCalls head) := by
  refine nests_start fun _ => (nests_operandHead hgo).bind fun head h => ?_
  refine nests_iterate (fun n hn => nests_extendOperand hgo hn) ?_
  exact Nat.le_add_right_of_le (by simpa using h)

lemma nests_operand : Nests m depth (room depth + 2) (operand go) := nests_headAndTail hgo true
lemma nests_callee : Nests m depth (room depth + 2) (callee go) := nests_headAndTail hgo false

lemma nests_calleeArguments : Nests m depth (room depth + 1) (calleeArguments go) :=
  (reading_atPunct "(").nests_bind fun _ => nests_ite (fun _ => nests_arguments hgo) fun _ =>
    nests_pure (by simp)

omit hgo in
lemma nests_metaProperty {most start : Nat} {word : String} :
    Nests m depth most (metaProperty start word) := by
  have howner : Nests m depth most (finish (.identifier word) start) := nests_bare rfl
  refine howner.bind fun owner h => reading_skip.nests_bind fun _ => ?_
  refine (nests_memberOf (by simpa using h)).bind fun found hfound => nests_pure ?_
  cases found with
  | none => exact h
  | some n => simpa using hfound

lemma nests_readNew : Nests m depth (room depth + 3) (readNew go) := by
  refine nests_start fun _ => reading_bump.nests_bind fun keyword => ?_
  refine (reading_atPunct ".").nests_bind fun _ => nests_ite (fun _ => ?_) fun _ => ?_
  · exact nests_metaProperty
  refine (nests_callee hgo).bind fun callee hcallee => ?_
  refine ((nests_calleeArguments hgo).mono (Nat.le_succ _)).after hcallee fun items h => ?_
  exact nests_finish h (by simp [Kind.children]) (Nat.lt_succ_self _)

/-! Functions. -/

lemma nests_statementsUntil {stops : Token → Bool} : Nests m depth (room depth) (statementsUntil go stops) :=
  nests_collectUntil (nests_everyRound (nests_one (nests_statement hgo)))

lemma nests_block : Nests m depth (room depth + 1) (block go) := by
  refine nests_start fun _ => (reading_punct "\x7b").nests_bind fun _ => ?_
  refine (nests_statementsUntil hgo).bind fun statements h => (reading_punct "\x7d").nests_bind fun _ => ?_
  exact nests_finish h (by simp [Kind.children]) (Nat.lt_succ_self _)

lemma nests_functionBody (async generator : Bool) :
    Nests m depth (room depth + 1) (functionBody go async generator) :=
  nests_inFunction async generator (nests_withIn true (nests_block hgo))

lemma nests_arrowBody (async : Bool) : Nests m depth (room depth + 1) (arrowBody go async) := by
  refine (reading_atPunct "\x7b").nests_bind fun _ => nests_ite (fun _ => ?_) fun _ => ?_
  · exact nests_functionBody hgo async false
  · exact (nests_inFunction async false (nests_assignment hgo)).mono (Nat.le_succ _)

lemma nests_bindingTarget : Nests m depth (room depth) (bindingTarget go) := by
  refine reading_peek.nests_bind fun t => nests_ite (fun _ => ?_) fun _ => ?_
  · exact (nests_withIn true (nests_primary hgo)).bind fun literal h =>
      nests_pure (by simpa [nodes,BindingTarget.children] using h)
  · refine reading_bindingIdentifier.nests_bind fun name => nests_pure ?_
    cases name <;> simp [nodes,BindingTarget.children]

lemma nests_defaultValue : Nests m depth (room depth) (defaultValue go) :=
  nests_optionally (reading_eatPunct "=") (nests_assignment hgo)

lemma nests_formalParameter : Nests m depth (room depth) (formalParameter go) := by
  refine (reading_eatPunct "...").nests_bind fun rest => ?_
  refine (nests_bindingTarget hgo).bind fun target htarget => ?_
  cases target with
  | none => exact nests_pure (by simp)
  | some target =>
    refine (nests_defaultValue hgo).after htarget fun default h => nests_pure ?_
    simpa [nodes,FormalParameter.children] using h

lemma nests_formalParameters : Nests m depth (room depth) (formalParameters go) := by
  refine (reading_expectPunct "(").nests_bind fun _ => nests_ite (fun _ => ?_) fun _ => nests_pure (by simp)
  refine (nests_withIn true (nests_commaSeparated (nests_formalParameter hgo))).bind fun params h => ?_
  exact (reading_punct ")").nests_bind fun _ => nests_pure h

lemma nests_function (nameRequired : Bool) : Nests m depth (room depth + 1) (function go nameRequired) := by
  refine (reading_eatName "async").nests_bind fun async => reading_skip.nests_bind fun _ => ?_
  refine (reading_eatPunct "*").nests_bind fun generator => ?_
  refine (reading_declaredName nameRequired _ _).nests_bind fun name => ?_
  refine ((nests_formalParameters hgo).mono (Nat.le_succ _)).bind fun params hparams => ?_
  exact (nests_functionBody hgo async generator).after hparams fun body h => nests_pure h

lemma nests_functionDeclaration : Nests m depth (room depth + 2) (functionDeclaration go) :=
  nests_start fun _ => (nests_function hgo true).bind fun _ h => nests_finish h rfl (Nat.lt_succ_self _)

lemma nests_functionExpression : Nests m depth (room depth + 2) (functionExpression go) :=
  nests_start fun _ => (nests_function hgo false).bind fun _ h => nests_finish h rfl (Nat.lt_succ_self _)

lemma nests_arrowParameters (head : ArrowHead) : Nests m depth (room depth) (arrowParameters go head) := by
  cases head with
  | name =>
    refine reading_bump.nests_bind fun t => nests_pure ?_
    simp [nodes,FormalParameter.children,BindingTarget.children]
  | list => exact nests_formalParameters hgo

lemma nests_arrowFunction (async : Bool) (head : ArrowHead) :
    Nests m depth (room depth + 2) (arrowFunction go async head) := by
  refine nests_start fun _ => (reading_skipIf async).nests_bind fun _ => ?_
  refine ((nests_arrowParameters hgo head).mono (Nat.le_succ _)).bind fun params hparams => ?_
  refine (reading_punct "=>").nests_bind fun _ => (nests_arrowBody hgo async).after hparams fun body h => ?_
  exact nests_finish h rfl (Nat.lt_succ_self _)

/-! Members of literals and classes. -/

lemma nests_propertyKey : Nests m depth (room depth) (propertyKey go) := by
  refine reading_peek.nests_bind fun t => ?_
  have hcomputed : Nests m depth (room depth) (do
      if t.isPunct "[" then
        discard bump
        let key ← withIn true (assignment go)
        discard (expectPunct "]")
        pure (.computed key)
      else
        reportHere .expectedPropertyName
        pure (.name "") : Parser (PropertyKey Node)) := by
    refine nests_ite (fun _ => reading_skip.nests_bind fun _ => ?_) fun _ => ?_
    · refine (nests_withIn true (nests_assignment hgo)).bind fun key h => ?_
      exact (reading_punct "]").nests_bind fun _ => nests_pure h
    · exact (reading_reportHere _).nests_bind fun _ => nests_pure (by simp [nodes,PropertyKey.children])
  split
  · exact reading_skip.nests_bind fun _ => nests_pure (by simp [nodes,PropertyKey.children])
  · exact reading_skip.nests_bind fun _ => nests_pure (by simp [nodes,PropertyKey.children])
  · exact reading_skip.nests_bind fun _ => nests_pure (by simp [nodes,PropertyKey.children])
  · exact hcomputed

lemma nests_method (async generator : Bool) : Nests m depth (room depth + 2) (method go async generator) := by
  refine nests_start fun _ => ?_
  refine ((nests_formalParameters hgo).mono (Nat.le_succ _)).bind fun params hparams => ?_
  refine (nests_functionBody hgo async generator).after hparams fun body h => ?_
  exact nests_finish h rfl (Nat.lt_succ_self _)

section

variable {key : PropertyKey Node} (hkey : Shallow (room depth) (nodes key))
include hkey

lemma nests_methodProperty {modifiers : PropertyModifiers} {isStatic : Bool} {start : Nat} :
    Nests m depth (room depth + 3) (methodProperty go key modifiers isStatic start) := by
  have hkey := hkey.mono (Nat.le_add_right _ 2)
  refine (nests_method hgo _ _).after hkey fun method h => ?_
  exact nests_finish h (by simp [Kind.children,nodes]) (Nat.lt_succ_self _)

lemma nests_fieldProperty {isStatic : Bool} {start : Nat} :
    Nests m depth (room depth + 3) (fieldProperty go key isStatic start) := by
  have hvalue : Nests m depth (room depth) (withIn true (assignment go)) :=
    nests_withIn true (nests_assignment hgo)
  refine (nests_optionally (reading_eatPunct "=") hvalue).after hkey fun value h => ?_
  refine reading_endStatement.nests_bind fun _ => ?_
  exact nests_finish h (by simp [Kind.children,nodes]) (by omega)

omit hkey in
lemma nests_shorthandValue {name : String} {nameStart : Nat} :
    Nests m depth (room depth + 1) (shorthandValue go name nameStart) := by
  have hname : Nests m depth (room depth) (finish (.identifier name) nameStart) := nests_bare rfl
  refine hname.bind fun ident hident => (reading_eatPunct "=").nests_bind fun _ => ?_
  refine nests_ite (fun _ => ?_) fun _ => nests_pure (hident.mono (Nat.le_succ _))
  refine (nests_assignment hgo).after hident fun default h => ?_
  exact nests_finish h (by simp [Kind.children]) (Nat.lt_succ_self _)

lemma nests_literalProperty {keyStart start : Nat} {modifiers : PropertyModifiers} {isStatic : Bool} :
    Nests m depth (room depth + 3) (literalProperty go key keyStart modifiers isStatic start) := by
  refine (reading_eatPunct ":").nests_bind fun _ => nests_ite (fun _ => ?_) fun _ => ?_
  · refine (nests_assignment hgo).after hkey fun value h => ?_
    exact nests_finish h (by simp [Kind.children,nodes]) (by omega)
  split
  · refine (nests_shorthandValue hgo).bind fun value h => ?_
    exact nests_finish h rfl (by omega)
  · refine (reading_reportHere _).nests_bind fun _ => ?_
    exact nests_finish hkey (by simp [Kind.children,nodes]) (by omega)

end

lemma nests_namedProperty {inClass isStatic : Bool} {start : Nat} :
    Nests m depth (room depth + 3) (namedProperty go inClass isStatic start) := by
  refine reading_propertyModifiers.nests_bind fun modifiers => nests_start fun keyStart => ?_
  refine (nests_propertyKey hgo).bind fun key hkey => (reading_atPunct "(").nests_bind fun _ => ?_
  refine nests_ite (fun _ => nests_methodProperty hgo hkey) fun _ => ?_
  exact nests_ite (fun _ => nests_fieldProperty hgo hkey) fun _ => nests_literalProperty hgo hkey

lemma nests_objectProperty : Nests m depth (room depth + 3) (objectProperty go) := by
  refine nests_start fun _ => (reading_eatPunct "...").nests_bind fun _ => ?_
  refine nests_ite (fun _ => ?_) fun _ => nests_namedProperty hgo
  exact (nests_assignment hgo).bind fun _ h => nests_finish h rfl (by omega)

lemma nests_classElement : Nests m depth (room depth + 3) (classElement go) := by
  refine nests_start fun _ => (reading_ahead 1).nests_bind fun next => reading_peek.nests_bind fun t => ?_
  exact (reading_skipIf _).nests_bind fun _ => nests_namedProperty hgo

lemma nests_classElements : Nests m depth (room depth + 3) (classElements go) := by
  refine nests_collectUntil ((reading_eatPunct ";").nests_bind fun _ => ?_)
  refine nests_ite (fun _ => nests_pure (by simp)) fun _ => ?_
  exact nests_everyRound (nests_one (nests_classElement hgo))

lemma nests_classParts (nameRequired : Bool) :
    Nests m depth (room depth + 3) (classParts go nameRequired) := by
  refine reading_skip.nests_bind fun _ => (reading_declaredName nameRequired _ _).nests_bind fun name => ?_
  have hheritage : Nests m depth (room depth + 3) (operand go) := (nests_operand hgo).mono (Nat.le_succ _)
  refine (nests_optionally (reading_eatName "extends") hheritage).bind fun heritage h => ?_
  refine (reading_punct "\x7b").nests_bind fun _ => ?_
  refine (nests_classElements hgo).after h fun elements h => (reading_punct "\x7d").nests_bind fun _ => ?_
  exact nests_pure (by simpa [nodes,ClassParts.children] using h)

/-! Literals and primary expressions. -/

lemma nests_arrayElements : Nests m depth (room depth + 1) (arrayElements go) := by
  refine nests_collectUntil ((reading_eatPunct ",").nests_bind fun _ => ?_)
  refine nests_ite (fun _ => nests_pure (by simp [nodes])) fun _ => nests_commaRound (nests_one ?_)
  exact nests_map (nests_spreadOrAssignment hgo) fun n => by simp

lemma nests_arrayLiteral : Nests m depth (room depth + 2) (arrayLiteral go) := by
  refine nests_start fun _ => reading_skip.nests_bind fun _ => ?_
  refine (nests_withIn true (nests_arrayElements hgo)).bind fun elements h => ?_
  refine (reading_punct "]").nests_bind fun _ => nests_finish h ?_ (Nat.lt_succ_self _)
  simp [Kind.children,nodes_holes]

lemma nests_objectLiteral : Nests m depth (room depth + 4) (objectLiteral go) := by
  refine nests_start fun _ => reading_skip.nests_bind fun _ => ?_
  refine (nests_withIn true (nests_commaSeparated (nests_one (nests_objectProperty hgo)))).bind
    fun properties h => (reading_punct "\x7d").nests_bind fun _ => ?_
  exact nests_finish h (by simp [Kind.children]) (Nat.lt_succ_self _)

omit hgo in
lemma nests_missingPrimary {most : Nat} (fault : GrammarFault) : Nests m depth most (missingPrimary fault) :=
  (reading_reportHere fault).nests_bind fun _ => nests_errorNode

lemma nests_groupedExpression : Nests m depth (room depth + 1) (groupedExpression go) := by
  have hinner : Nests m depth (room depth + 1) (groupedInner go) :=
    (reading_atPunct ")").nests_bind fun _ => nests_ite (fun _ => nests_missingPrimary _) fun _ =>
      nests_expressionWithIn hgo
  refine reading_skip.nests_bind fun _ => hinner.bind fun inner h => ?_
  exact (reading_punct ")").nests_bind fun _ => nests_pure h

omit hgo in
lemma nests_leaf {most : Nat} {kind : Kind Node} (h : kind.children = []) : Nests m depth most (leaf kind) :=
  nests_start fun _ => reading_skip.nests_bind fun _ => nests_bare h

lemma nests_namedPrimary (t next : Token) : Nests m depth (room depth + 4) (namedPrimary go t next) := by
  unfold namedPrimary
  split
  · exact nests_leaf (leaf_of_wordLiteral? ‹_›).1
  refine nests_ite (fun _ => (nests_functionExpression hgo).mono (by omega)) fun _ => ?_
  refine nests_ite (fun _ => ?_) fun _ => nests_ite (fun _ => ?_) fun _ => ?_
  · exact nests_start fun _ => (nests_classParts hgo false).bind fun _ h => nests_finish h rfl (by omega)
  · exact (nests_goal hgo .newExpression (by decide)).mono (by omega)
  · exact nests_ite (fun _ => nests_missingPrimary _) fun _ => nests_leaf rfl

lemma nests_readPrimary : Nests m depth (room depth + 4) (readPrimary go) := by
  refine reading_peek.nests_bind fun t => ?_
  split
  · exact (reading_ahead 1).nests_bind fun next => nests_namedPrimary hgo t next
  · exact nests_leaf rfl
  · exact nests_leaf rfl
  · exact nests_leaf rfl
  · exact nests_leaf rfl
  · refine nests_ite (fun _ => (nests_groupedExpression hgo).mono (by omega)) fun _ => ?_
    refine nests_ite (fun _ => (nests_arrayLiteral hgo).mono (by omega)) fun _ => ?_
    exact nests_ite (fun _ => nests_objectLiteral hgo) fun _ => nests_missingPrimary _
  · exact nests_missingPrimary _

/-! Operators. -/

lemma nests_postfixed : Nests m depth (room depth + 3) (postfixed go) := by
  refine nests_start fun _ => (nests_operand hgo).bind fun argument h => reading_peek.nests_bind fun t => ?_
  refine nests_ite (fun _ => ?_) fun _ => nests_pure (h.mono (Nat.le_succ _))
  exact reading_skip.nests_bind fun _ => nests_finish h rfl (Nat.lt_succ_self _)

lemma nests_prefixed {layer : Node → Kind Node} (h : ∀ n, (layer n).children = [n]) :
    Nests m depth (room depth + 3) (prefixed go layer) := by
  refine nests_start fun _ => reading_skip.nests_bind fun _ => ?_
  refine (nests_goal hgo .unary (by decide)).bind fun argument hargument => ?_
  exact nests_finish hargument (h argument) (by omega)

lemma nests_readUnary : Nests m depth (room depth + 3) (readUnary go) := by
  refine reading_peek.nests_bind fun t => nests_ite (fun _ => nests_prefixed hgo fun _ => rfl) fun _ => ?_
  refine nests_ite (fun _ => nests_prefixed hgo fun _ => rfl) fun _ => reading_get.nests_bind fun s => ?_
  exact nests_ite (fun _ => nests_prefixed hgo fun _ => rfl) fun _ => nests_postfixed hgo

omit hgo in
/-- No operator but a power binds tighter than products. -/
lemma le_of_binaryPrecedence? {t : Token} {allowIn : Bool} {precedence : Nat}
    (h : t.binaryPrecedence? allowIn = some precedence) (hpower : t.text ≠ "**") : precedence ≤ 11 := by
  unfold Token.binaryPrecedence? at h
  split at h
  · have hall : ∀ entry ∈ binaryPunctuators, entry.1 = "**" ∨ entry.2 ≤ 11 := by decide
    obtain ⟨before,later,hentries,-⟩ := List.lookup_eq_some_iff.mp h
    have hentry : (t.text,precedence) ∈ binaryPunctuators := by simp [hentries]
    exact (hall _ hentry).resolve_left hpower
  · split at h
    · cases h
      decide
    · cases h
  · cases h

omit hgo in
/-- An operator goes around its left operand and nests the right one, which binds tighter. A power goes around
both. -/
lemma nests_operator {start above precedence : Nat} {operator : String} {left right : Node}
    (htighter : above < precedence) (hpower : operator ≠ "**" → precedence ≤ 11)
    (hleft : left.nesting ≤ room depth + Goal.layers (.binary above))
    (hright : right.nesting ≤
      room depth + Goal.layers (.binary (if operator == "**" then precedence - 1 else precedence))) :
    Nests m depth (room depth + Goal.layers (.binary above)) (finish (.binary operator left right) start) := by
  simp only [Goal.layers] at hleft hright ⊢
  by_cases h : operator = "**"
  · have hsame : (Kind.binary operator left right).uncounted = [left,right] := congrArg ([left] ++ ·) (if_pos h)
    have hinner : (Kind.binary operator left right).inner = [] := if_pos h
    rw [if_pos (beq_iff_eq.mpr h)] at hright
    refine fun s => nests_put ?_ (by simp [hinner]) s
    rw [hsame,Shallow.cons_iff,Shallow.cons_iff]
    exact ⟨hleft,by omega,Shallow.nil⟩
  · have hsame : (Kind.binary operator left right).uncounted = [left] := congrArg ([left] ++ ·) (if_neg h)
    have hinner : (Kind.binary operator left right).inner = [right] := if_neg h
    rw [if_neg (mt beq_iff_eq.mp h)] at hright
    have hloosest := hpower h
    refine fun s => nests_put (by simpa [hsame] using hleft) ?_ s
    rw [hinner,List.forall_mem_singleton]
    omega

lemma nests_extendBinary {start above : Nat} {left : Node}
    (hleft : left.nesting ≤ room depth + Goal.layers (.binary above)) :
    Nests m depth (room depth + Goal.layers (.binary above)) (extendBinary go start above left) := by
  intro s hs hdepth next u hu
  obtain ⟨_,_,⟨⟩,hu⟩ := bind_eq_ok hu
  obtain ⟨_,_,⟨⟩,hu⟩ := bind_eq_ok hu
  cases hprecedence : s.peek.binaryPrecedence? s.allowIn with
  | none =>
    simp only [hprecedence] at hu
    cases hu
    exact ⟨hs,hdepth,by simp⟩
  | some precedence =>
    simp only [hprecedence] at hu
    split at hu
    · cases hu
      exact ⟨hs,hdepth,by simp⟩
    rename_i htighter
    obtain ⟨_,_,⟨⟩,hu⟩ := bind_eq_ok hu
    obtain ⟨right,v,hright,hu⟩ := bind_eq_ok hu
    -- The right operand is a goal at the same depth, behind the operator.
    have hadvance := s.follows_advance
    have hlt := hs.advance_lt (kind_ne_eof_of_binaryPrecedence? hprecedence)
    have hbudget : s.advance.budget < m := by
      have := hadvance.depth
      have := hs.budget
      unfold State.budget at *
      omega
    have hready := (hadvance.within hs).toReady
    have hfollows := hadvance.trans ((hgo.reads _ _ hready hbudget).of_ok hright).follows
    have hnesting := hgo.nesting _ _ hready hbudget right v hright
    rw [hadvance.depth,hdepth] at hnesting
    have hlayer : Nests m depth (room depth + Goal.layers (.binary above))
        (finish (.binary s.peek.text left right) start) :=
      nests_operator (Nat.lt_of_not_le htighter) (le_of_binaryPrecedence? hprecedence) hleft hnesting
    exact nests_map hlayer (fun n => by simp) v (hfollows.within hs) (hfollows.depth.trans hdepth) next u hu

lemma nests_readBinary (above : Nat) :
    Nests m depth (room depth + Goal.layers (.binary above)) (readBinary go above) := by
  refine nests_start fun _ => (nests_readUnary hgo).bind fun left h => ?_
  refine nests_iterate (fun n hn => nests_extendBinary hgo hn) ?_
  simp only [nodes_node,Shallow.cons_iff] at h
  simp only [Goal.layers]
  omega

lemma nests_conditional : Nests m depth (room depth + 15) (conditional go) := by
  have htest : Nests m depth (room depth + 14) (readBinary go 0) := nests_readBinary hgo 0
  have hpart : Nests m depth (room depth + 14) (assignment go) := (nests_assignment hgo).mono (by omega)
  refine nests_start fun _ => htest.bind fun test h => (reading_eatPunct "?").nests_bind fun _ => ?_
  refine nests_ite (fun _ => ?_) fun _ => nests_pure (h.mono (Nat.le_succ _))
  refine (nests_withIn true hpart).after h fun consequent h => (reading_punct ":").nests_bind fun _ => ?_
  exact hpart.after h fun alternate h => nests_finish h (by simp [Kind.children]) (Nat.lt_succ_self _)

lemma nests_yieldExpression : Nests m depth (room depth + 1) (yieldExpression go) := by
  have hargument : Nests m depth (room depth) (yieldArgument go) :=
    reading_peek.nests_bind fun t => nests_ite (fun _ => nests_pure (by simp)) fun _ =>
      nests_map (nests_assignment hgo) fun n => by simp
  refine nests_start fun _ => reading_skip.nests_bind fun _ => (reading_eatPunct "*").nests_bind fun _ => ?_
  exact hargument.bind fun argument h => nests_finish h (by simp [Kind.children]) (Nat.lt_succ_self _)

lemma nests_plainAssignment : Nests m depth (room depth + 16) (plainAssignment go) := by
  refine nests_start fun _ => (nests_conditional hgo).bind fun target h => reading_peek.nests_bind fun t => ?_
  refine nests_ite (fun _ => ?_) fun _ => nests_pure (h.mono (Nat.le_succ _))
  refine (reading_checkTarget _ target).nests_bind fun _ => reading_skip.nests_bind fun _ => ?_
  refine ((nests_assignment hgo).mono (by omega)).after h fun value h => ?_
  exact nests_finish h (by simp [Kind.children]) (Nat.lt_succ_self _)

lemma nests_readAssignment : Nests m depth (room depth + 16) (readAssignment go) := by
  refine reading_get.nests_bind fun s => ?_
  simp only
  split
  · exact (nests_arrowFunction hgo _ _).mono (by omega)
  · refine nests_ite (fun _ => (nests_yieldExpression hgo).mono (by omega)) fun _ => ?_
    exact nests_plainAssignment hgo

end

end QmlCodeModel.Grammar
