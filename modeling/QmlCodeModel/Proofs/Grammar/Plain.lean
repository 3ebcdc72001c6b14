import QmlCodeModel.Grammar.Source
import QmlCodeModel.Proofs.Grammar.Pieces
import QmlCodeModel.Proofs.Grammar.Source
import QmlCodeModel.Proofs.Sketch.Basic

/-! Plain expressions. A level of the grammar adds nothing to what is read below it where the next token is
none of its own, and then comes to what the level below comes to. -/
namespace QmlCodeModel.Grammar

variable {go : Reader} {s : State} {t : Token} {post : Node → State → Prop}

/-- A token that does not go on with an operand. -/
structure EndsOperand (t : Token) : Prop where
  punct : ∀ text ∈ [".","?.","[","(","++","--"], t.isPunct text = false
  template : (t.kind == .template) = false

lemma EndsOperand.isStep (h : EndsOperand t) : t.isStep = false := by
  simp [Token.isStep,h.punct]

lemma extendOperand_none {start : Nat} {allowCalls : Bool} {operand : Node} (h : EndsOperand s.peek) :
    extendOperand go start allowCalls operand s = .ok (none,s) := by
  have hpunct := h.punct
  change (if s.peek.isPunct "." then _ else _ : Parser (Option Node)) s = _
  simp only [hpunct "." (by decide),hpunct "?." (by decide),hpunct "[" (by decide),hpunct "(" (by decide),
    h.template,Bool.false_and,Bool.false_eq_true,if_false]
  rfl

lemma ends_operand_plain (hnew : s.peek.isName "new" = false) (hend : ∀ n t, post n t → EndsOperand t.peek)
    (h : Ends [] (primary go) s post) : Ends [] (operand go) s post := by
  unfold operand operandHead
  rw [ends_start,bind_assoc,ends_atName,hnew]
  refine h.bind fun n t ht => ?_
  unfold Ends operandTail
  rw [iterate_none (extendOperand_none (hend n t ht))]
  exact ht

lemma ends_readUnary_plain (hoperator : s.peek.isUnaryOperator = false) (hstep : s.peek.isStep = false)
    (hawait : (s.inAsync && s.peek.isName "await") = false) (hend : ∀ n t, post n t → t.peek.isStep = false)
    (h : Ends [] (operand go) s post) : Ends [] (readUnary go) s post := by
  unfold readUnary
  rw [ends_peek,hoperator,hstep]
  simp only [Bool.false_eq_true,if_false]
  rw [ends_get,hawait]
  simp only [Bool.false_eq_true,if_false]
  unfold postfixed
  rw [ends_start]
  refine h.bind fun n t ht => ?_
  rw [ends_peek,hend n t ht]
  exact ht

lemma ends_plainAssignment_plain
    (hend : ∀ n t, post n t → t.peek.isPunct "?" = false ∧ t.peek.isAssignmentOperator = false)
    (h : Ends [] (readBinary go 0) s post) : Ends [] (plainAssignment go) s post := by
  unfold plainAssignment conditional
  simp only [bind_assoc]
  rw [ends_start,ends_start]
  refine h.bind fun n t ht => ?_
  obtain ⟨hquestion,hassignment⟩ := hend n t ht
  rw [ends_known (eatPunct_absent hquestion)]
  simp only [Bool.false_eq_true,if_false,pure_bind]
  rw [ends_peek,hassignment]
  exact ht

lemma ends_readAssignment_plain (hasync : s.startsAsyncArrow = false) (harrow : s.arrowHeadAt 0 = none)
    (hyield : (s.inGenerator && s.peek.isName "yield") = false) (h : Ends [] (plainAssignment go) s post) :
    Ends [] (readAssignment go) s post := by
  unfold readAssignment
  rw [ends_get,hasync]
  simp only [Bool.false_eq_true,if_false,harrow,hyield]
  exact h

lemma ends_expression_plain (hend : ∀ n t, post n t → t.peek.isPunct "," = false)
    (h : Ends [] (assignment go) s post) : Ends [] (expression go) s post := by
  unfold expression
  rw [ends_start]
  refine h.bind fun n t ht => ?_
  rw [ends_atPunct,hend n t ht]
  exact ht

/-- An expression that goes to the end of a source is all of the source. -/
lemma ends_readSingleExpression_plain (hstart : s.peek.kind ≠ .eof)
    (hend : ∀ n t, post n t → t.peek.kind = .eof) (h : Ends [] (expression go) s post) :
    Ends [] (readSingleExpression go) s post := by
  have hroot : Ends [] (expressionOrError go) s post := by
    change Ends [] (if s.peek.kind == .eof then _ else _ : Parser Node) s _
    rw [if_neg (by simp [hstart])]
    exact h
  unfold readSingleExpression
  refine hroot.bind fun n t ht => ?_
  change Ends [] (reportIf (!(t.peek.kind == .eof)) .tokenAfterExpression >>= fun _ => pure n) t _
  rw [hend n t ht]
  exact ht

/-- A source that is read as an expression without a complaint has a tree. There are more levels than
tokens. -/
lemma exists_parse_expression {source : String} (shape : Node → Prop)
    (h : ∀ levels, (opening source.toList).rest.length ≤ levels →
      Ends [] (readSingleExpression (readWithin (levels + 2))) (opening source.toList) fun n t =>
        shape n ∧ t.diagnostics = #[]) :
    ∃ p, parse? .expression source = some p ∧ p.diagnostics = [] ∧ shape p.root := by
  obtain ⟨levels,hlevels⟩ := Nat.exists_eq_add_of_le'
    (show 2 ≤ maxNesting + (opening source.toList).rest.length + 1 by unfold maxNesting; omega)
  have hread := h levels (by unfold maxNesting at hlevels; omega)
  rw [← hlevels] at hread
  cases hresult : reading .expression source.toList with
  | error e => exact absurd (hread.of_error hresult).2 (by simp)
  | ok result =>
    obtain ⟨root,final⟩ := result
    obtain ⟨hroot,hnone⟩ := hread.of_ok hresult
    refine ⟨{
      root, form := .expression, nodes := final.nodes
      comments := (tokenize source.toList).comments.toList
      diagnostics := [], directives := final.directives.toList },?_,rfl,hroot⟩
    simp [parse?,hresult,Except.toOption,hnone,Diagnostic.sort]

/-! Names that are no words of the grammar. -/

lemma Name.text_ne (name : Name) {text : String} (h : isReserved text) : (name.text == text) = false := by
  rw [beq_eq_false_iff_ne]
  rintro rfl
  simp [name.free] at h

lemma wordLiteral?_of_free {text : String} (h : isReserved text = false) : wordLiteral? text = none := by
  unfold wordLiteral?
  split
  case h_6 => rfl
  all_goals exact absurd h (by decide)

/-- A name that is no word of the grammar is an expression by itself. -/
lemma namedPrimary_name (name : Name) {next : Token} (htext : t.text = name.text)
    (hasync : (t.text == "async" && next.isName "function") = false) :
    namedPrimary go t next = leaf (.identifier t.text) := by
  have hfunction := Name.text_ne name (show isReserved "function" by decide)
  have hclass := Name.text_ne name (show isReserved "class" by decide)
  have hnew := Name.text_ne name (show isReserved "new" by decide)
  unfold namedPrimary
  rw [htext] at hasync ⊢
  simp only [wordLiteral?_of_free name.free,hasync,hfunction,hclass,hnew,name.free]
  simp only [Bool.false_and,Bool.or_false,Bool.false_eq_true,if_false]

lemma isUnaryOperator_name (name : Name) (htext : t.text = name.text) : t.isUnaryOperator = false := by
  have hwords : ∀ text ∈ unaryOperators, isReserved text ∨ isWord text.toList = false := by decide +kernel
  have hname : name.text ∉ unaryOperators := fun h => by
    obtain hreserved | hword := hwords _ h
    · simp [name.free] at hreserved
    · simp [name.isWord] at hword
  simp [Token.isUnaryOperator,htext,hname]

end QmlCodeModel.Grammar
