import QmlCodeModel.Proofs.Grammar.Expression

/-! Statements are readings. -/
namespace QmlCodeModel.Grammar

section

variable {m : Nat} {go : Reader} {s : State} {xs : List Node} (hgo : Obeys m go)
include hgo

lemma reading_expressionStatement : Reading m (expressionStatement go) := by
  refine reading_start fun s => (reading_expression hgo).resumes_bind fun inner => ?_
  exact resumes_finishStatement (by simp [Kind.children]) rfl

omit hgo in
lemma reading_variableKind : Reading m variableKind :=
  reading_of_resumes fun _ => reading_bump.resumes_bind fun _ => resumes_pure rfl

lemma reading_variableDeclaration : Reading m (variableDeclaration go) := by
  refine reading_start fun s => (answers_bindingTarget hgo).resumes_bind (reading_bindingTarget hgo)
    fun target htarget => ?_
  cases target with
  | none => exact resumes_pure rfl
  | some target =>
    refine (reading_defaultValue hgo).resumes_bind fun init => ?_
    refine resumes_bind (resumes_layer (by simp [Kind.children,nodes]) (fun _ => ?_) (fun _ => rfl) fun _ =>
      trivial) fun node => ?_
    · exact .of_idents trivial (htarget target rfl) rfl
    exact (reading_eatPunct ",").resumes_bind fun _ => resumes_pure (by simp)

lemma variableDeclaration_advances : Advances m (variableDeclaration go) := by
  intro s hs
  unfold variableDeclaration
  rw [ends_start,ends_bind]
  refine (reading_bindingTarget hgo s hs).mono fun target t ht => ?_
  cases target with
  | none => exact advance_stop
  | some target =>
    simp only
    rw [ends_bind]
    have hinit := reading_defaultValue hgo t (ht.follows.within hs)
    refine (hinit.of_suffix ht.follows.rest).mono fun init u hu => ?_
    rw [ends_bind]
    -- Making the node takes no token.
    let v := (u.make (u.spanFrom s.front) (.variableDeclaration target init)).2
    change Ends s.rest (eatPunct "," >>= _) v _
    refine ends_eat (fun h _ => ?_) fun _ h => absurd h Bool.false_ne_true
    have hwithin := hu.follows.within (ht.follows.within hs)
    have hv : v.Within m := ⟨⟨hwithin.eof,hwithin.ordered,hwithin.texts⟩,hwithin.budget⟩
    have hlt := hv.advance_lt (kind_ne_eof_of_isPunct _ h)
    exact Nat.lt_of_lt_of_le hlt (Nat.le_trans hu.follows.length_le ht.follows.length_le)

lemma reading_variableDeclarations : Reading m (variableDeclarations go) :=
  reading_collect (reading_variableDeclaration hgo) (variableDeclaration_advances hgo)

lemma answers_variableDeclarations {tokens : List Token} :
    Answers m tokens (variableDeclarations go) fun declarations => ∀ d ∈ declarations, d.kind.isVariable := by
  refine answers_collect (answers_start fun _ => (reading_bindingTarget hgo).answers_bind fun target => ?_)
  cases target with
  | none => exact answers_pure nofun
  | some target =>
    refine (reading_defaultValue hgo).answers_bind fun init => ?_
    have hnode (start : Nat) : Answers m tokens (finish (.variableDeclaration target init) start) fun n =>
        n.kind.isVariable := answers_finish fun n hn => by rw [hn]; rfl
    refine (hnode _).bind fun n hn => (reading_eatPunct ",").answers_bind fun _ => answers_pure ?_
    simpa using hn

lemma reading_variableStatement : Reading m (variableStatement go) := by
  refine reading_start fun s => reading_variableKind.resumes_bind fun kind => ?_
  refine (answers_variableDeclarations hgo).resumes_bind (reading_variableDeclarations hgo)
    fun declarations hdeclarations => reading_endStatement.resumes_bind fun _ => ?_
  exact resumes_layer (by simp [Kind.children]) (fun _ => .of_shaped hdeclarations rfl rfl) (fun _ => rfl)
    fun _ => trivial

lemma reading_ifStatement : Reading m (ifStatement go) := by
  refine reading_start fun s => reading_skip.resumes_bind fun _ => ?_
  refine (reading_parenthesized hgo).resumes_bind fun test => ?_
  refine (reading_statement hgo).resumes_bind fun consequent => ?_
  refine (reading_optionally (reading_eatName "else") (reading_statement hgo)).resumes_bind
    fun alternate => ?_
  exact resumes_finish (by simp [Kind.children]) rfl

lemma reading_whileStatement : Reading m (whileStatement go) := by
  refine reading_start fun s => reading_skip.resumes_bind fun _ => ?_
  refine (reading_parenthesized hgo).resumes_bind fun test => ?_
  exact (reading_statement hgo).resumes_bind fun body => resumes_finish (by simp [Kind.children]) rfl

lemma reading_doStatement : Reading m (doStatement go) := by
  refine reading_start fun s => reading_skip.resumes_bind fun _ => ?_
  refine (reading_statement hgo).resumes_bind fun body => ?_
  refine (reading_discard (reading_expectName "while") fun _ => rfl).resumes_bind fun _ => ?_
  refine (reading_parenthesized hgo).resumes_bind fun test => ?_
  refine (reading_discard (reading_eatPunct ";") fun _ => rfl).resumes_bind fun _ => ?_
  exact resumes_finish (by simp [Kind.children]) rfl

lemma reading_loopStart : Reading m (loopStart go) := by
  refine reading_of_resumes fun s => reading_peek.resumes_bind fun t => ?_
  refine resumes_ite (fun _ => resumes_pure rfl) fun _ => (reading_ahead 1).resumes_bind fun next => ?_
  refine resumes_ite (fun _ => ?_) fun _ => ?_
  · have hdeclared : Reading m (do
        let start ← start
        let kind ← variableKind
        let declarations ← withIn false (variableDeclarations go)
        some <$> finish (.variableStatement kind declarations) start) := by
      refine reading_start fun s => reading_variableKind.resumes_bind fun kind => ?_
      refine ((answers_variableDeclarations hgo).withIn false).resumes_bind
        (reading_withIn false (reading_variableDeclarations hgo)) fun declarations hdeclarations => ?_
      have hfinish : Resumes m s declarations (finish (.variableStatement kind declarations) s.front)
          fun n => [n] := resumes_layer rfl (fun _ => .of_shaped hdeclarations rfl rfl) (fun _ => rfl) fun _ => trivial
      exact resumes_map (by simpa using hfinish)
    exact hdeclared.resumes.congr (by simp)
  · exact resumes_map ((reading_withIn false (reading_expression hgo)).resumes.congr (by simp))

omit hgo in
lemma reading_loopWord : Reading m loopWord := by
  refine reading_of_resumes fun s => (reading_eatName "of").resumes_bind fun _ => ?_
  refine resumes_ite (fun _ => resumes_pure rfl) fun _ => (reading_eatName "in").resumes_bind fun _ => ?_
  exact resumes_ite (fun _ => resumes_pure rfl) fun _ => resumes_pure rfl

lemma resumes_forEach (kind : ForEachKind) (left : Node) :
    Resumes m s [left] (forEach go s.front kind left) nodes := by
  refine (reading_expressionWithIn hgo).resumes_bind fun right => ?_
  refine (reading_punct ")").resumes_bind fun _ => ?_
  exact (reading_statement hgo).resumes_bind fun body => resumes_finish (by simp [Kind.children]) rfl

lemma reading_loopPart (close : String) : Reading m (loopPart go close) := by
  refine reading_of_resumes fun s => (reading_atPunct close).resumes_bind fun _ => ?_
  refine resumes_ite (fun _ => resumes_pure rfl) fun _ => ?_
  exact resumes_map ((reading_expressionWithIn hgo).resumes.congr (by simp))

lemma resumes_forLoop (init : Option Node) :
    Resumes m s init.toList (forLoop go s.front init) nodes := by
  refine (reading_punct ";").resumes_bind fun _ => (reading_loopPart hgo ";").resumes_bind fun test => ?_
  refine (reading_punct ";").resumes_bind fun _ => (reading_loopPart hgo ")").resumes_bind fun step => ?_
  refine (reading_punct ")").resumes_bind fun _ => (reading_statement hgo).resumes_bind fun body => ?_
  exact resumes_finish (by simp [Kind.children]) rfl

lemma reading_forStatement : Reading m (forStatement go) := by
  refine reading_start fun s => reading_skip.resumes_bind fun _ => ?_
  refine (reading_punct "(").resumes_bind fun _ => (reading_loopStart hgo).resumes_bind fun init => ?_
  cases init with
  | none => exact resumes_forLoop hgo none
  | some left =>
    refine reading_loopWord.resumes_bind fun kind => ?_
    cases kind with
    | none => exact resumes_forLoop hgo (some left)
    | some kind => exact resumes_forEach hgo kind left

omit hgo in
lemma reading_jumpLabel : Reading m jumpLabel := by
  refine reading_of_resumes fun s => reading_peek.resumes_bind fun t => ?_
  exact resumes_ite (fun _ => reading_identifier.resumes.congr (by simp)) fun _ => resumes_pure rfl

omit hgo in
lemma reading_jumpStatement {layer : Option Ident → Kind Node} (h : ∀ l, (layer l).children = [])
    (plain : ∀ l, (layer l).isPlain) : Reading m (jumpStatement layer) := by
  refine reading_start fun s => reading_skip.resumes_bind fun _ => ?_
  refine reading_jumpLabel.resumes_bind fun label => reading_endStatement.resumes_bind fun _ => ?_
  exact resumes_finish (by simp [h]) (plain label)

lemma reading_returnArgument : Reading m (returnArgument go) := by
  refine reading_of_resumes fun s => reading_peek.resumes_bind fun t => ?_
  refine resumes_ite (fun _ => resumes_pure rfl) fun _ => ?_
  exact resumes_map ((reading_expression hgo).resumes.congr (by simp))

lemma reading_returnStatement : Reading m (returnStatement go) := by
  refine reading_start fun s => reading_skip.resumes_bind fun _ => ?_
  refine (reading_returnArgument hgo).resumes_bind fun argument => ?_
  exact reading_endStatement.resumes_bind fun _ => resumes_finish (by simp [Kind.children]) rfl

lemma reading_throwStatement : Reading m (throwStatement go) := by
  refine reading_start fun s => reading_skip.resumes_bind fun _ => reading_peek.resumes_bind fun t => ?_
  refine (reading_reportIf _ _).resumes_bind fun _ => ?_
  refine (reading_expression hgo).resumes_bind fun argument => ?_
  exact reading_endStatement.resumes_bind fun _ => resumes_finish (by simp [Kind.children]) rfl

omit hgo in
lemma reading_debuggerStatement : Reading m debuggerStatement :=
  reading_start fun _ => reading_skip.resumes_bind fun _ => reading_endStatement.resumes_bind
    fun _ => resumes_finish rfl rfl

lemma resumes_caseBody (test : Option Node) :
    Resumes m s test.toList (caseBody go s.front test) nodes := by
  refine (reading_punct ":").resumes_bind fun _ => ?_
  refine (reading_statementsUntil hgo _).resumes_bind fun body => ?_
  exact resumes_bind (resumes_finish (by simp [Kind.children]) rfl) fun _ => resumes_pure (by simp)

lemma reading_switchCase : Reading m (switchCase go) := by
  refine reading_start fun s => (reading_eatName "case").resumes_bind fun _ => ?_
  refine resumes_ite (fun _ => ?_) fun _ => ?_
  · refine (reading_expressionWithIn hgo).resumes_bind fun test => ?_
    exact resumes_caseBody hgo (some test)
  refine (reading_eatName "default").resumes_bind fun _ => resumes_ite (fun _ => ?_) fun _ => ?_
  · exact resumes_caseBody hgo none
  refine (reading_reportHere _).resumes_bind fun _ => ?_
  exact reading_skip.resumes_bind fun _ => resumes_pure rfl

lemma switchCase_takes (hs : s.Within m) (hrest : s.rest ≠ []) :
    Ends s.rest (switchCase go) s (Advance s) := by
  unfold switchCase
  rw [ends_start]
  refine advance_eat hs kind_ne_eof_of_isName ?_ (advance_eat hs kind_ne_eof_of_isName ?_ ?_)
  · refine (reading_expressionWithIn hgo).resumes_bind fun test => ?_
    exact resumes_caseBody hgo (some test)
  · exact resumes_caseBody hgo none
  · -- Any token is taken here, and the report takes none.
    intro _
    have hreport := s.rest_report s.front .expectedCase
    rw [← hreport]
    exact State.length_advance_lt (by rwa [hreport])

lemma reading_switchStatement : Reading m (switchStatement go) := by
  refine reading_start fun s => reading_skip.resumes_bind fun _ => ?_
  refine (reading_parenthesized hgo).resumes_bind fun discriminant => ?_
  refine (reading_punct "\x7b").resumes_bind fun _ => ?_
  refine (reading_collectUntil (reading_switchCase hgo) fun _ hs hrest =>
    switchCase_takes hgo hs hrest).resumes_bind fun cases => ?_
  exact (reading_punct "\x7d").resumes_bind fun _ => resumes_finish (by simp [Kind.children]) rfl

lemma reading_catchParameter : Reading m (catchParameter go) := by
  refine reading_of_resumes fun s => (reading_eatPunct "(").resumes_bind fun _ => ?_
  refine resumes_ite (fun _ => ?_) fun _ => resumes_pure rfl
  refine (reading_bindingTarget hgo).resumes_bind fun param => ?_
  exact (reading_punct ")").resumes_bind fun _ => resumes_pure (by simp)

lemma reading_catchClause : Reading m (catchClause go) := by
  refine reading_of_resumes fun s => (reading_eatName "catch").resumes_bind fun _ => ?_
  refine resumes_ite (fun _ => ?_) fun _ => resumes_pure rfl
  refine (reading_catchParameter hgo).resumes_bind fun param => ?_
  exact (reading_block hgo).resumes_bind fun handler => resumes_pure (by simp)

/-- What `catch` binds by name is a token, and a handler is a block. -/
lemma answers_catchClause {tokens : List Token} : Answers m tokens (catchClause go) fun clause =>
    (∀ t ∈ clause.1, ∀ i ∈ t.idents, i.From tokens) ∧ ∀ h ∈ clause.2, h.kind.isBlock := by
  have hparam : Answers m tokens (catchParameter go) fun param =>
      ∀ t ∈ param, ∀ i ∈ t.idents, i.From tokens := by
    refine (reading_eatPunct "(").answers_bind fun _ => answers_ite (fun _ => ?_) fun _ => answers_pure nofun
    refine (answers_bindingTarget hgo).bind fun param hparam => ?_
    exact (reading_punct ")").answers_bind fun _ => answers_pure hparam
  refine (reading_eatName "catch").answers_bind fun _ => answers_ite (fun _ => ?_) fun _ => ?_
  · refine hparam.bind fun param hparam => (answers_block hgo).bind fun handler hhandler => ?_
    exact answers_pure ⟨hparam,fun h hh => by cases hh; exact hhandler⟩
  · exact answers_pure ⟨nofun,nofun⟩

omit hgo in
lemma nodes_parameter (param : Option (BindingTarget Node)) :
    nodes param = (param.map BindingTarget.children).getD [] := by
  cases param with
  | none => rfl
  | some target => rw [nodes_some]; rfl

lemma reading_tryStatement : Reading m (tryStatement go) := by
  refine reading_start fun s => reading_skip.resumes_bind fun _ => ?_
  refine (reading_block hgo).resumes_bind fun body => ?_
  refine (answers_catchClause hgo).resumes_bind (reading_catchClause hgo) fun clause hclause => ?_
  obtain ⟨param,handler⟩ := clause
  refine (reading_optionally (reading_eatName "finally") (reading_block hgo)).resumes_bind
    fun finalizer => (reading_reportIf _ _).resumes_bind fun _ => ?_
  refine resumes_layer ?_ (fun _ => .of_idents hclause.2 ?_ rfl) (fun _ => rfl) fun _ => trivial
  · simp [Kind.children,nodes_parameter]
  · cases param with
    | none => exact List.forall_mem_nil _
    | some param => exact hclause.1 param rfl

lemma reading_classDeclaration : Reading m (classDeclaration go) :=
  reading_start fun _ => (answers_classParts hgo true).resumes_bind (reading_classParts hgo true) fun _ hname =>
    resumes_layer rfl (fun _ => .of_idents trivial (fun i hi => hname i (Option.mem_toList.mp hi)) rfl)
      (fun _ => rfl) fun _ => trivial

lemma reading_labelledStatement : Reading m (labelledStatement go) := by
  refine reading_start fun s => reading_bump.resumes_bind fun label => ?_
  refine reading_skip.resumes_bind fun _ => (reading_statement hgo).resumes_bind fun body => ?_
  exact resumes_finish (by simp [Kind.children]) rfl

/-! No statement that starts with a name is a block. -/

omit hgo in
lemma opened_of_isBlock {n : Node} (h : n.kind.isBlock = false) : n.Opened :=
  fun hblock => absurd hblock (by simp [h])

/-- What a part makes last is no block. -/
def MakesNoBlock (p : Parser Node) : Prop := ∀ s n t, p s = .ok (n, t) → n.kind.isBlock = false

section

omit hgo

variable {α : Type} {p : Parser Node}

lemma MakesNoBlock.ends {post : Node → State → Prop} (h : MakesNoBlock p) (hp : Ends s.rest p s post) :
    Ends s.rest p s fun n t => post n t ∧ n.kind.isBlock = false := by
  unfold Ends at hp ⊢
  split
  · rename_i hcase
    rw [hcase] at hp
    exact ⟨hp,h _ _ _ hcase⟩
  · rename_i hcase
    rwa [hcase] at hp

lemma makes_bind {q : Parser α} {k : α → Parser Node} (h : ∀ a, MakesNoBlock (k a)) : MakesNoBlock (q >>= k) := by
  intro s n u hu
  obtain ⟨a,t,-,hu⟩ := bind_eq_ok hu
  exact h a t n u hu

lemma makes_layer {span : Span} {kind : Kind Node} (h : kind.isBlock = false) : MakesNoBlock (make span kind) := by
  rintro s n t ⟨⟩
  exact h

lemma makes_finish {start : Nat} {kind : Kind Node} (h : kind.isBlock = false) :
    MakesNoBlock (finish kind start) := fun s => makes_layer h s

lemma makes_expressionStatement : MakesNoBlock (expressionStatement go) :=
  makes_bind fun _ => makes_bind fun _ => makes_bind fun _ => makes_bind fun _ => makes_layer rfl

lemma makes_jumpStatement {layer : Option Ident → Kind Node} (h : ∀ label, (layer label).isBlock = false) :
    MakesNoBlock (jumpStatement layer) :=
  makes_bind fun _ => makes_bind fun _ => makes_bind fun label => makes_bind fun _ => makes_finish (h label)

lemma makes_forLoop (start : Nat) (init : Option Node) : MakesNoBlock (forLoop go start init) := by
  repeat refine makes_bind fun _ => ?_
  exact makes_finish rfl

lemma makes_forStatement : MakesNoBlock (forStatement go) := by
  refine makes_bind fun start => makes_bind fun _ => makes_bind fun _ => makes_bind fun init => ?_
  cases init with
  | none => exact makes_forLoop start none
  | some left =>
    refine makes_bind fun word => ?_
    cases word with
    | none => exact makes_forLoop start (some left)
    | some kind => exact makes_bind fun _ => makes_bind fun _ => makes_bind fun _ => makes_finish rfl

lemma makes_functionDeclaration : MakesNoBlock (functionDeclaration go) :=
  makes_bind fun _ => makes_bind fun _ => makes_finish rfl

lemma makes_namedStatement (t next : Token) : MakesNoBlock (namedStatement go t next) := by
  unfold namedStatement
  split
  · exact makes_bind fun _ => makes_bind fun _ => makes_bind fun _ => makes_bind fun _ => makes_finish rfl
  split
  case h_2 => exact makes_forStatement
  case h_5 => exact makes_jumpStatement fun _ => rfl
  case h_6 => exact makes_jumpStatement fun _ => rfl
  case h_12 => exact makes_functionDeclaration
  case h_14 =>
    split
    · exact makes_functionDeclaration
    split
    · exact makes_bind fun _ => makes_bind fun _ => makes_bind fun _ => makes_bind fun _ => makes_finish rfl
    · exact makes_expressionStatement
  -- The others end with their layer, after so many parts.
  all_goals
    repeat refine makes_bind fun _ => ?_
    exact makes_finish rfl

end

lemma ends_namedStatement (hs : s.Within m) (hne : s.rest ≠ []) (t next : Token) :
    Ends s.rest (namedStatement go t next) s fun n u => Reads s [n] u := by
  unfold namedStatement
  split
  · exact reading_variableStatement hgo s hs
  split
  · exact reading_ifStatement hgo s hs
  · exact reading_forStatement hgo s hs
  · exact reading_whileStatement hgo s hs
  · exact reading_doStatement hgo s hs
  · exact reading_jumpStatement (fun _ => rfl) (fun _ => rfl) s hs
  · exact reading_jumpStatement (fun _ => rfl) (fun _ => rfl) s hs
  · exact reading_returnStatement hgo s hs
  · exact reading_throwStatement hgo s hs
  · exact reading_switchStatement hgo s hs
  · exact reading_tryStatement hgo s hs
  · exact reading_debuggerStatement s hs
  · exact ends_functionDeclaration hgo hs hne
  · exact reading_classDeclaration hgo s hs
  split
  · exact ends_functionDeclaration hgo hs hne
  split
  · exact reading_labelledStatement hgo s hs
  · exact reading_expressionStatement hgo s hs

/-- A block that is a statement starts with its brace. -/
lemma readStatement_opened (hs : s.Within m) : Ends s.rest (readStatement go) s fun n _ => n.Opened := by
  unfold readStatement
  rw [ends_peek]
  split
  · rename_i h
    rw [beq_iff_eq] at h
    rw [ends_ahead]
    have hnamed := ends_namedStatement hgo hs (State.rest_ne_nil hs.eof (by simp [h])) s.peek (s.ahead 1)
    exact ((makes_namedStatement _ _).ends hnamed).mono fun n t ht => opened_of_isBlock ht.2
  split
  · exact ends_block hgo hs ‹_›
  split
  · exact opened_of_isBlock rfl
  · have h := makes_expressionStatement.ends (reading_expressionStatement hgo s hs)
    exact h.mono fun n t ht => opened_of_isBlock ht.2

lemma reading_readStatement : Reading m (readStatement go) := by
  intro s hs
  unfold readStatement
  rw [ends_peek]
  split
  · rename_i h
    rw [beq_iff_eq] at h
    rw [ends_ahead]
    exact ends_namedStatement hgo hs (State.rest_ne_nil hs.eof (by simp [h])) _ _
  split
  · exact reading_block hgo s hs
  split
  · exact reading_leaf rfl rfl s hs
  · exact reading_expressionStatement hgo s hs

end

end QmlCodeModel.Grammar
