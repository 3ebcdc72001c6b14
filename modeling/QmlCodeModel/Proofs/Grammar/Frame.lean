import QmlCodeModel.Proofs.Grammar.Moves.Reading

/-! What a part of the grammar may not change. Wherever it starts, it leaves the surroundings as they were, stands
at a token that is there, and has only added nodes and messages. -/
namespace QmlCodeModel.Grammar

/-- The state stands at one of these tokens. Those to come are the later ones, and the last of them is the end. -/
structure State.At (tokens : List Token) (s : State) : Prop where
  upcoming : tokens.drop s.taken = s.rest ++ [s.eof]
  eof : s.eof.kind = .eof
  ordered : s.Ordered

/-- How a part of the grammar leaves a state, whatever it reads. -/
structure Leaves (tokens : List Token) (s t : State) : Prop where
  depth : t.depth = s.depth
  allowIn : t.allowIn = s.allowIn
  inAsync : t.inAsync = s.inAsync
  inGenerator : t.inGenerator = s.inGenerator
  taken : s.taken ≤ t.taken
  previousStop : s.previousStop ≤ t.previousStop
  /-- The next token is one of these, and not past the last. -/
  next : tokens[t.taken]? = some t.peek
  stands : t.At tokens
  nodes : s.nodes.toList <+: t.nodes.toList
  diagnostics : s.diagnostics.toList <+: t.diagnostics.toList

/-- A part keeps to this from every state, if it has an answer there. -/
def Framed {α : Type} (p : Parser α) : Prop :=
  ∀ tokens s a t, s.At tokens → p s = .ok (a, t) → Leaves tokens s t

variable {tokens : List Token} {s t : State}

lemma State.At.next (h : s.At tokens) : tokens[s.taken]? = some s.peek := by
  rw [← Nat.add_zero s.taken,← List.getElem?_drop,h.upcoming]
  unfold peek
  cases s.rest <;> rfl

lemma State.At.follows (h : s.At tokens) (hfollows : s.Follows t) : t.At tokens := by
  refine ⟨?_,by rw [hfollows.eof]; exact h.eof,(hfollows.order h.ordered).1⟩
  obtain ⟨before,hbefore⟩ := hfollows.rest
  have htaken : t.taken = s.taken + before.length := by
    have := hfollows.taken
    simp only [← hbefore,List.length_append] at this
    omega
  rw [htaken,← List.drop_drop,h.upcoming,← hbefore,hfollows.eof,List.append_assoc,List.drop_left]

lemma State.prefix_report (s : State) (offset : Nat) (fault : GrammarFault) :
    s.diagnostics.toList <+: (s.report offset fault).diagnostics.toList := by
  unfold report
  split
  · exact List.prefix_rfl
  · simp

/-- By induction on the steps: a node that is made comes behind those made before. -/
lemma Goes.prefix_nodes (h : Goes tokens s t) : s.nodes.toList <+: t.nodes.toList := by
  induction h with
  | append _ _ ih ih' => exact ih.trans ih'
  | token s => simp
  | complaint s fault _ => simp
  | target s offset _ => simp
  | make s span kind _ => simp [State.make]
  | inside _ _ _ _ _ ih => exact ih
  | _ => exact List.prefix_rfl

lemma Goes.prefix_diagnostics (h : Goes tokens s t) : s.diagnostics.toList <+: t.diagnostics.toList := by
  induction h with
  | append _ _ ih ih' => exact ih.trans ih'
  | token s => simp
  | complaint s fault _ => exact s.prefix_report s.front fault
  | target s offset _ =>
    rw [State.diagnostics_advance]
    exact s.prefix_report offset _
  | inside _ _ _ _ _ ih => exact ih
  | _ => exact List.prefix_rfl

/-- What goes by the steps of the grammar is framed. -/
lemma framed_of_moves {α : Type} {p : Parser α} (h : ∀ tokens, Moves tokens p) : Framed p := by
  intro tokens s a t hs ht
  obtain ⟨hgoes,-⟩ := h s.rest s ⟨List.suffix_rfl,hs.eof⟩ a t ht
  have hfollows := hgoes.follows
  have hstands := hs.follows hfollows
  obtain ⟨-,hstop,-⟩ := hfollows.order hs.ordered
  refine ⟨hfollows.depth,hfollows.allowIn,hfollows.inAsync,hfollows.inGenerator,?_,hstop,hstands.next,hstands,
    hgoes.prefix_nodes,hgoes.prefix_diagnostics⟩
  have := hfollows.taken
  have := hfollows.length_le
  omega

section

variable {α : Type} {p : Parser α}

/-- The operator is what it was, and a framed part leaves all else. -/
lemma framed_withIn (allowed : Bool) (h : Framed p) : Framed (withIn allowed p) := by
  intro tokens s a u hs hu
  change (p >>= fun a => do
    modify fun t => { t with allowIn := s.allowIn }
    pure a) { s with allowIn := allowed } = _ at hu
  obtain ⟨a,t,ht,⟨⟩⟩ := bind_eq_ok hu
  have hinside : { s with allowIn := allowed }.At tokens := ⟨hs.upcoming,hs.eof,hs.ordered⟩
  have hleaves := h tokens _ a t hinside ht
  obtain ⟨hupcoming,heof,hordered⟩ := hleaves.stands
  exact ⟨hleaves.depth,rfl,hleaves.inAsync,hleaves.inGenerator,hleaves.taken,hleaves.previousStop,hleaves.next,
    ⟨hupcoming,heof,hordered⟩,hleaves.nodes,hleaves.diagnostics⟩

lemma framed_inFunction (async generator : Bool) (h : Framed p) : Framed (inFunction async generator p) := by
  intro tokens s a u hs hu
  change (p >>= fun a => do
    modify fun t => { t with inAsync := s.inAsync, inGenerator := s.inGenerator }
    pure a) { s with inAsync := async, inGenerator := generator } = _ at hu
  obtain ⟨a,t,ht,⟨⟩⟩ := bind_eq_ok hu
  have hinside : { s with inAsync := async, inGenerator := generator }.At tokens :=
    ⟨hs.upcoming,hs.eof,hs.ordered⟩
  have hleaves := h tokens _ a t hinside ht
  obtain ⟨hupcoming,heof,hordered⟩ := hleaves.stands
  exact ⟨hleaves.depth,hleaves.allowIn,rfl,rfl,hleaves.taken,hleaves.previousStop,hleaves.next,
    ⟨hupcoming,heof,hordered⟩,hleaves.nodes,hleaves.diagnostics⟩

end

/-- All functions of the grammar, over one way to read the goals inside one another, have a property. -/
structure EveryPart (P : {α : Type} → Parser α → Prop) (go : Reader) : Prop where
  -- Whole sources, and what stands in front of them.
  readSource whole form : P (readSource go whole form)
  header : P header
  importHeader : P importHeader
  pragmaHeader : P pragmaHeader
  rootObject : P (rootObject go)
  directive : P directive
  directiveQualifier : P directiveQualifier
  -- Tokens and names.
  bump : P bump
  eatPunct text : P (eatPunct text)
  eatName text : P (eatName text)
  expectPunct text : P (expectPunct text)
  endStatement : P endStatement
  errorNode : P errorNode
  identifier : P identifier
  bindingIdentifier : P bindingIdentifier
  qualifiedName : P qualifiedName
  -- Goals and surroundings.
  goal goal : P (go goal)
  nested goal : P (nested go goal)
  withIn {α : Type} {p : Parser α} allowed (h : P p) : P (withIn allowed p)
  inFunction {α : Type} {p : Parser α} async generator (h : P p) : P (inFunction async generator p)
  -- Objects and their members.
  objectDefinition : P (objectDefinition go)
  readInitializer : P (readInitializer go)
  objectMember : P (objectMember go)
  namedMember t next afterNext : P (namedMember go t next afterNext)
  functionElement : P (sourceElement (functionDeclaration go))
  variableElement : P (sourceElement (variableStatement go))
  bindingMember : P (bindingMember go)
  objectArray : P (objectArray go)
  script : P (script go)
  memberType : P memberType
  declaredType : P declaredType
  publicMember : P (publicMember go)
  firstValue name : P (firstValue go name)
  signalMember : P signalMember
  enumDeclaration : P enumDeclaration
  -- Statements.
  statementsUntil stops : P (statementsUntil go stops)
  readStatement : P (readStatement go)
  namedStatement t next : P (namedStatement go t next)
  block : P (block go)
  expressionStatement : P (expressionStatement go)
  parenthesized : P (parenthesized go)
  variableKind : P variableKind
  variableStatement : P (variableStatement go)
  variableDeclarations : P (variableDeclarations go)
  ifStatement : P (ifStatement go)
  whileStatement : P (whileStatement go)
  doStatement : P (doStatement go)
  loopStart : P (loopStart go)
  forEach start kind left : P (forEach go start kind left)
  forLoop start init : P (forLoop go start init)
  forStatement : P (forStatement go)
  continueStatement : P (jumpStatement .continue)
  breakStatement : P (jumpStatement .break)
  returnStatement : P (returnStatement go)
  throwStatement : P (throwStatement go)
  debuggerStatement : P debuggerStatement
  switchStatement : P (switchStatement go)
  tryStatement : P (tryStatement go)
  labelledStatement : P (labelledStatement go)
  -- Functions, classes, and what they bind.
  bindingTarget : P (bindingTarget go)
  functionDeclaration : P (functionDeclaration go)
  functionExpression : P (functionExpression go)
  function nameRequired : P (function go nameRequired)
  formalParameters : P (formalParameters go)
  functionBody async generator : P (functionBody go async generator)
  arrowFunction async head : P (arrowFunction go async head)
  classDeclaration : P (classDeclaration go)
  classParts nameRequired : P (classParts go nameRequired)
  propertyModifiers : P propertyModifiers
  propertyKey : P (propertyKey go)
  namedProperty inClass isStatic start : P (namedProperty go inClass isStatic start)
  objectProperty : P (objectProperty go)
  -- Expressions.
  expression : P (expression go)
  readAssignment : P (readAssignment go)
  plainAssignment : P (plainAssignment go)
  yieldExpression : P (yieldExpression go)
  conditional : P (conditional go)
  readBinary above : P (readBinary go above)
  readUnary : P (readUnary go)
  operand : P (operand go)
  operandTail start allowCalls head : P (operandTail go start allowCalls head)
  readNew : P (readNew go)
  arguments : P (arguments go)
  spreadOrAssignment : P (spreadOrAssignment go)
  readPrimary : P (readPrimary go)
  namedPrimary t next : P (namedPrimary go t next)
  groupedExpression : P (groupedExpression go)
  arrayLiteral : P (arrayLiteral go)
  objectLiteral : P (objectLiteral go)

/-- A way to read goals by the steps of the grammar makes all its functions framed. -/
lemma everyPart_framed {go : Reader} (hgo : ∀ tokens goal, Moves tokens (go goal)) : EveryPart Framed go where
  readSource whole form := framed_of_moves fun _ => moves_readSource (hgo _) whole form
  header := framed_of_moves fun _ => moves_header
  importHeader := framed_of_moves fun _ => moves_importHeader
  pragmaHeader := framed_of_moves fun _ => moves_pragmaHeader
  rootObject := framed_of_moves fun _ => moves_rootObject (hgo _)
  directive := framed_of_moves fun _ => moves_directive
  directiveQualifier := framed_of_moves fun _ => moves_directiveQualifier
  bump := framed_of_moves fun _ => moves_bump
  eatPunct text := framed_of_moves fun _ => moves_eatPunct text
  eatName text := framed_of_moves fun _ => moves_eatName text
  expectPunct text := framed_of_moves fun _ => moves_expectPunct text
  endStatement := framed_of_moves fun _ => moves_endStatement
  errorNode := framed_of_moves fun _ => moves_errorNode
  identifier := framed_of_moves fun _ => moves_identifier
  bindingIdentifier := framed_of_moves fun _ => moves_bindingIdentifier
  qualifiedName := framed_of_moves fun _ => moves_qualifiedName
  goal goal := framed_of_moves fun _ => hgo _ goal
  nested goal := framed_of_moves fun _ => moves_nested (hgo _ goal)
  withIn := framed_withIn
  inFunction := framed_inFunction
  objectDefinition := framed_of_moves fun _ => moves_objectDefinition (hgo _)
  readInitializer := framed_of_moves fun _ => moves_readInitializer (hgo _)
  objectMember := framed_of_moves fun _ => moves_objectMember (hgo _)
  namedMember _ _ _ := framed_of_moves fun _ => moves_namedMember (hgo _)
  functionElement := framed_of_moves fun _ => moves_sourceElement (moves_functionDeclaration (hgo _))
  variableElement := framed_of_moves fun _ => moves_sourceElement (moves_variableStatement (hgo _))
  bindingMember := framed_of_moves fun _ => moves_bindingMember (hgo _)
  objectArray := framed_of_moves fun _ => moves_objectArray (hgo _)
  script := framed_of_moves fun _ => moves_script (hgo _)
  memberType := framed_of_moves fun _ => moves_memberType
  declaredType := framed_of_moves fun _ => moves_declaredType
  publicMember := framed_of_moves fun _ => moves_publicMember (hgo _)
  firstValue name := framed_of_moves fun _ => moves_firstValue (hgo _) name
  signalMember := framed_of_moves fun _ => moves_signalMember
  enumDeclaration := framed_of_moves fun _ => moves_enumDeclaration
  statementsUntil _ := framed_of_moves fun _ => moves_statementsUntil (hgo _)
  readStatement := framed_of_moves fun _ => moves_readStatement (hgo _)
  namedStatement _ _ := framed_of_moves fun _ => moves_namedStatement (hgo _)
  block := framed_of_moves fun _ => moves_block (hgo _)
  expressionStatement := framed_of_moves fun _ => moves_expressionStatement (hgo _)
  parenthesized := framed_of_moves fun _ => moves_parenthesized (hgo _)
  variableKind := framed_of_moves fun _ => moves_variableKind
  variableStatement := framed_of_moves fun _ => moves_variableStatement (hgo _)
  variableDeclarations := framed_of_moves fun _ => moves_variableDeclarations (hgo _)
  ifStatement := framed_of_moves fun _ => moves_ifStatement (hgo _)
  whileStatement := framed_of_moves fun _ => moves_whileStatement (hgo _)
  doStatement := framed_of_moves fun _ => moves_doStatement (hgo _)
  loopStart := framed_of_moves fun _ => moves_loopStart (hgo _)
  forEach _ _ _ := framed_of_moves fun _ => moves_forEach (hgo _)
  forLoop _ _ := framed_of_moves fun _ => moves_forLoop (hgo _)
  forStatement := framed_of_moves fun _ => moves_forStatement (hgo _)
  continueStatement := framed_of_moves fun _ => moves_jumpStatement fun _ => trivial
  breakStatement := framed_of_moves fun _ => moves_jumpStatement fun _ => trivial
  returnStatement := framed_of_moves fun _ => moves_returnStatement (hgo _)
  throwStatement := framed_of_moves fun _ => moves_throwStatement (hgo _)
  debuggerStatement := framed_of_moves fun _ => moves_debuggerStatement
  switchStatement := framed_of_moves fun _ => moves_switchStatement (hgo _)
  tryStatement := framed_of_moves fun _ => moves_tryStatement (hgo _)
  labelledStatement := framed_of_moves fun _ => moves_labelledStatement (hgo _)
  bindingTarget := framed_of_moves fun _ => moves_bindingTarget (hgo _)
  functionDeclaration := framed_of_moves fun _ => moves_functionDeclaration (hgo _)
  functionExpression := framed_of_moves fun _ => moves_functionExpression (hgo _)
  function _ := framed_of_moves fun _ => moves_function (hgo _)
  formalParameters := framed_of_moves fun _ => moves_formalParameters (hgo _)
  functionBody _ _ := framed_of_moves fun _ => moves_functionBody (hgo _)
  arrowFunction _ _ := framed_of_moves fun _ => moves_arrowFunction (hgo _)
  classDeclaration := framed_of_moves fun _ => moves_classDeclaration (hgo _)
  classParts _ := framed_of_moves fun _ => moves_classParts (hgo _)
  propertyModifiers := framed_of_moves fun _ => moves_propertyModifiers
  propertyKey := framed_of_moves fun _ => moves_propertyKey (hgo _)
  namedProperty _ _ _ := framed_of_moves fun _ => moves_namedProperty (hgo _)
  objectProperty := framed_of_moves fun _ => moves_objectProperty (hgo _)
  expression := framed_of_moves fun _ => moves_expression (hgo _)
  readAssignment := framed_of_moves fun _ => moves_readAssignment (hgo _)
  plainAssignment := framed_of_moves fun _ => moves_plainAssignment (hgo _)
  yieldExpression := framed_of_moves fun _ => moves_yieldExpression (hgo _)
  conditional := framed_of_moves fun _ => moves_conditional (hgo _)
  readBinary above := framed_of_moves fun _ => moves_readBinary (hgo _) above
  readUnary := framed_of_moves fun _ => moves_readUnary (hgo _)
  operand := framed_of_moves fun _ => moves_operand (hgo _)
  operandTail _ _ _ := framed_of_moves fun _ => moves_operandTail (hgo _)
  readNew := framed_of_moves fun _ => moves_readNew (hgo _)
  arguments := framed_of_moves fun _ => moves_arguments (hgo _)
  spreadOrAssignment := framed_of_moves fun _ => moves_spreadOrAssignment (hgo _)
  readPrimary := framed_of_moves fun _ => moves_readPrimary (hgo _)
  namedPrimary _ _ := framed_of_moves fun _ => moves_namedPrimary (hgo _)
  groupedExpression := framed_of_moves fun _ => moves_groupedExpression (hgo _)
  arrayLiteral := framed_of_moves fun _ => moves_arrayLiteral (hgo _)
  objectLiteral := framed_of_moves fun _ => moves_objectLiteral (hgo _)

/-- The state in front of a text stands at its first token. -/
lemma at_opening (text : List Char) : (opening text).At (tokenize text).tokens.toList := by
  have hfollows := opening_follows text
  obtain ⟨tokens,eof,htokens,heof,-,hspread,-⟩ := tokens_tokenize text
  rw [htokens] at hfollows ⊢
  rw [List.dropLast_concat,List.getLastD_concat] at hfollows
  have hfirst : State.At (tokens ++ [eof]) { rest := tokens, eof, lines := LineIndex.ofText text } :=
    ⟨rfl,heof,hspread⟩
  exact hfirst.follows hfollows

/-- No surroundings leak out of a part of the grammar, from whatever state of a reading it starts. -/
theorem surroundings_kept (text : List Char) : (opening text).At (tokenize text).tokens.toList ∧
    ∀ levels, EveryPart Framed (readWithin levels) :=
  ⟨at_opening text,fun levels => everyPart_framed fun _ => moves_readWithin levels⟩

end QmlCodeModel.Grammar
