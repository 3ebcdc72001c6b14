import QmlCodeModel.Proofs.Grammar.Name
import QmlCodeModel.Proofs.Grammar.Plain

/-! The grammar goes past the parts of a sketch that hold no object: dotted names and numbers. What tells
an object from a value is seen ahead. -/
namespace QmlCodeModel.Grammar

variable {source : String} {s t : State} {p q : Piece} {gap : Gap} {later : List Piece}

/-! Dotted names. -/

lemma ends_name {word : Word} (h : s.Before source (⟨gap,.word word⟩ :: later)) :
    Ends [] identifier s (Past source s [⟨gap,.word word⟩] later fun name? =>
      name? = some ⟨word.text,(Piece.mk gap (.word word)).span s.previousStop⟩) := by
  unfold identifier
  rw [ends_peek,if_pos (by rw [h.peek_cons]; rfl),ends_bump]
  exact ⟨by rw [h.peek_cons]; rfl,h.advance⟩

/-- A dotted name goes on with a dot only. -/
def StopsName (pieces : List Piece) : Prop := ∃ q later, pieces = q :: later ∧ q.glyph ≠ .mark .dot

lemma not_isPunct_dot (offset : Nat) (h : p.glyph ≠ .mark .dot) :
    (p.token offset).isPunct "." = false := by
  obtain ⟨gap,word | digits | mark⟩ := p
  · rfl
  · rfl
  · rw [Piece.token_mark_isPunct]
    cases mark
    case dot => exact absurd rfl h
    all_goals decide

lemma StopsName.isPunct (h : s.Before source later) (hstop : StopsName later) :
    s.peek.isPunct "." = false := by
  obtain ⟨q,later,rfl,hq⟩ := hstop
  rw [h.peek_cons]
  exact not_isPunct_dot _ hq

/-- One more part of a dotted name. -/
lemma ends_nameTail_dot {name : Name}
    (h : s.Before source (⟨.none,.mark .dot⟩ :: ⟨.none,.word name.toWord⟩ :: later)) :
    Ends [] nameTail s (Past source s [⟨.none,.mark .dot⟩,⟨.none,.word name.toWord⟩] later fun r =>
      ∃ i : Ident, r = ⟨[i],true⟩ ∧ i.name = name.text ∧ s.previousStop ≤ i.span.start) := by
  obtain ⟨hname,hdot⟩ := h.advance
  obtain ⟨hlater,hpassed⟩ := hname.advance
  have htokens : (s.peek.isPunct "." && (s.ahead 1).kind == .name) = true := by
    have hdot : Mark.dot.text = "." := by decide
    rw [h.peek_cons,h.ahead_one]
    simp [hdot,Glyph.kind]
  unfold nameTail
  rw [ends_peek,ends_ahead,if_pos htokens,ends_skip,ends_bump,hname.peek_cons]
  refine ⟨⟨_,rfl,rfl,?_⟩,hlater,hdot.trans hpassed⟩
  simp [identOf,Piece.token,Piece.span,hdot.stop]
  omega

/-- The parts of a dotted name after the first. -/
lemma ends_nameTails (names : List Name) (rounds : Nat)
    (h : s.Before source (DottedName.tail names ++ later)) (hstop : StopsName later)
    (hrounds : names.length ≤ rounds) :
    Ends [] (collectWithin nameTail (rounds + 1)) s
      (Past source s (DottedName.tail names) later fun idents =>
        idents.map Ident.name = names.map (·.text) ∧ ∀ i ∈ idents, s.previousStop ≤ i.span.start) := by
  induction names generalizing s rounds with
  | nil =>
    unfold collectWithin nameTail
    rw [bind_assoc,ends_peek,hstop.isPunct h]
    exact ⟨⟨rfl,by simp⟩,h,.refl s⟩
  | cons n names ih =>
    obtain ⟨rounds,rfl⟩ := Nat.exists_eq_add_of_le' (Nat.le_trans (Nat.succ_pos _) hrounds)
    unfold collectWithin
    refine (ends_nameTail_dot h).past (.refl s) fun r t hr ht hpassed => ?_
    obtain ⟨i,rfl,hname,hstart⟩ := hr
    refine (ih rounds ht (Nat.le_of_succ_le_succ hrounds)).past hpassed fun idents u hidents hu hall => ?_
    refine ⟨⟨by simp [hname,hidents.1],fun j hj => ?_⟩,hu,hall⟩
    obtain rfl | hj := List.mem_cons.mp hj
    · exact hstart
    · have := hidents.2 j hj
      have := hpassed.stop
      omega

lemma length_tail (names : List Name) : names.length ≤ (DottedName.tail names).length := by
  induction names with
  | nil => exact Nat.le_refl _
  | cons n names ih =>
    simp only [DottedName.tail,List.length_cons]
    omega

/-- A dotted name has its parts and starts with the first. -/
lemma ends_dottedName (d : DottedName) (h : s.Before source (d.pieces gap ++ later))
    (hstop : StopsName later) : Ends [] qualifiedName s (Past source s (d.pieces gap) later fun name =>
      name.names = d.names ∧ name.span.start = s.previousStop + byteWidth gap.chars) := by
  have h : s.Before source (⟨gap,.word d.first.toWord⟩ :: (DottedName.tail d.later ++ later)) := h
  unfold qualifiedName
  refine (ends_name h).past (.refl s) fun name? t hname ht hpassed => ?_
  subst hname
  have hrounds : d.later.length ≤ t.rest.length := by
    have := length_tail d.later
    rw [ht.rest,length_tokensAt,List.length_append]
    omega
  have htails : Ends [] (collect nameTail) t _ := ends_nameTails d.later _ ht hstop hrounds
  refine htails.past hpassed fun idents u hidents hu hall => ?_
  refine ⟨⟨by simp [QualifiedName.names,DottedName.names,hidents.1],?_⟩,hu,hall⟩
  refine start_of_parts fun i hi => ?_
  have := hidents.2 i hi
  have := hpassed.stop
  simp only [Piece.span,written_cons,List.nil_append,Piece.chars,byteWidth_append] at this ⊢
  omega

/-! What is seen ahead of an object. -/

/-- The last part of a dotted name and the token after it are found ahead. -/
lemma dottedEnd_tail (names : List Name) (later : List Piece) (last : Token) (offset : Nat)
    (hq : q.glyph ≠ .mark .dot) :
    ∃ t offset', dottedEnd last (tokensAt offset (DottedName.tail names ++ q :: later)) =
      (t,some (q.token offset')) ∧ (t = last ∨ ∃ n ∈ names, t.text = n.text) := by
  induction names generalizing last offset with
  | nil =>
    refine ⟨last,offset,?_,.inl rfl⟩
    cases later with
    | nil => rfl
    | cons p later =>
      have hdot := not_isPunct_dot offset hq
      simp [DottedName.tail,tokensAt,dottedEnd,hdot]
  | cons n names ih =>
    let token := (Piece.mk .none (.word n.toWord)).token (offset + (Piece.mk .none (.mark .dot)).width)
    obtain ⟨t,offset',hend,ht⟩ := ih token (offset + (Piece.mk .none (.mark .dot)).width +
      (Piece.mk .none (.word n.toWord)).width)
    refine ⟨t,offset',hend,?_⟩
    obtain rfl | ⟨m,hm,htext⟩ := ht
    · exact .inr ⟨n,List.mem_cons_self,rfl⟩
    · exact .inr ⟨m,List.mem_cons_of_mem _ hm,htext⟩

/-- A dotted name before an opening brace starts an object. Where a type has to be named, its last part
has a capital. -/
lemma startsObject_pieces {d : DottedName} {typeNamed : Bool} (offset : Nat) {between : Gap}
    (h : typeNamed → ∀ n ∈ d.first :: d.later, startsUppercase n.text) :
    startsObject typeNamed (tokensAt offset (d.pieces gap ++ ⟨between,.mark .opening⟩ :: later)) =
      true := by
  have hne : (Piece.mk between (.mark .opening)).glyph ≠ .mark .dot := by simp
  obtain ⟨t,offset',hend,ht⟩ := dottedEnd_tail d.later later
    ((Piece.mk gap (.word d.first.toWord)).token offset)
    (offset + (Piece.mk gap (.word d.first.toWord)).width) hne
  have hcapital : (!typeNamed || startsUppercase t.text) = true := by
    cases typeNamed with
    | false => rfl
    | true =>
      obtain rfl | ⟨n,hn,htext⟩ := ht
      · exact h rfl _ List.mem_cons_self
      · rw [htext]
        exact h rfl n (List.mem_cons_of_mem _ hn)
  have hopening : Mark.opening.text == "\x7b" := by decide
  change startsObject typeNamed (_ :: tokensAt _ (DottedName.tail d.later ++ _ :: later)) = true
  simp only [startsObject,hend,hcapital]
  simp [Token.isBindable,Glyph.kind,Glyph.text,d.first.free,hopening]

/-- A number starts no object. -/
lemma startsObject_numeral (value : Numeral) (typeNamed : Bool) (offset : Nat) :
    startsObject typeNamed (tokensAt offset (value.pieces gap ++ later)) = false ∧
    startsObjectArray (tokensAt offset (value.pieces gap ++ later)) = false := by
  obtain ⟨negative,digits⟩ := value
  have hminus : (Mark.minus.text == "[") = false := by decide
  cases negative
  all_goals
    simp [Numeral.pieces,tokensAt,startsObject,startsObjectArray,Token.isBindable,Glyph.kind,hminus]

/-! Numbers. -/

/-- A token that does not go on with an expression, and before which no semicolon is needed. -/
structure Quiet (t : Token) : Prop where
  punct (text : String) (h : text ≠ "\x7d") : t.isPunct text = false
  template : (t.kind == .template) = false
  binary (allowIn : Bool) : t.binaryPrecedence? allowIn = none
  assignment : t.isAssignmentOperator = false
  ended : (t.isPunct "\x7d" || t.kind == .eof || t.newlineBefore) = true

lemma Quiet.endsOperand {t : Token} (h : Quiet t) : EndsOperand t where
  punct text htext := h.punct text (by rintro rfl; simp at htext)
  template := h.template

/-- At the end of a source nothing goes on. -/
lemma quiet_of_eof {t : Token} (h : t.kind = .eof) : Quiet t where
  punct text _ := by simp [Token.isPunct,h]
  template := by simp [h]
  binary allowIn := by simp [Token.binaryPrecedence?,h]
  assignment := by simp [Token.isAssignmentOperator,h]
  ended := by simp [h]

/-- A script ends before a closing brace and before a name on the next line. -/
def StopsScript (pieces : List Piece) : Prop := ∃ q later, pieces = q :: later ∧
  (q.glyph = .mark .closing ∨ q.gap.endsLine ∧ ∃ name : Name, q.glyph = .word name.toWord)

lemma StopsScript.quiet (h : s.Before source later) (hstop : StopsScript later) : Quiet s.peek := by
  obtain ⟨⟨gap,glyph⟩,later,rfl,hq⟩ := hstop
  rw [h.peek_cons]
  obtain rfl | ⟨hline,name,rfl⟩ := hq
  · have hclosing : Mark.closing.text = "\x7d" := by decide
    refine ⟨fun text htext => ?_,rfl,fun allowIn => ?_,?_,?_⟩
    · simpa [hclosing] using htext.symm
    · rfl
    · rfl
    · simp [hclosing]
  · refine ⟨fun _ _ => rfl,rfl,fun allowIn => ?_,rfl,?_⟩
    · have hfree := name.free
      simp [isReserved,reservedWords] at hfree
      simp [Token.binaryPrecedence?,Glyph.kind,Glyph.text,hfree]
    · simp [Piece.token,hline]

section

variable {go : Reader} {digits : Digits}

/-- A token that is an expression by itself. -/
lemma ends_leaf (kind : Kind Node) (h : s.Before source (p :: later)) :
    Ends [] (leaf kind) s (Covers source s [p] later) := by
  obtain ⟨hlater,hpassed⟩ := h.advance
  unfold leaf
  rw [ends_start,ends_skip,h.front_cons]
  exact ends_finish hpassed hlater fun _ => rfl

lemma ends_readPrimary_digits (h : s.Before source (⟨gap,.digits digits⟩ :: later)) :
    Ends [] (readPrimary go) s (Covers source s [⟨gap,.digits digits⟩] later) := by
  unfold readPrimary
  rw [ends_peek,h.peek_cons]
  exact ends_leaf _ h

lemma extendBinary_quiet {start above : Nat} {left : Node} (h : Quiet s.peek) :
    extendBinary go start above left s = .ok (none,s) := by
  simp only [extendBinary,peek,bind,StateT.bind,Except.bind,get,getThe,MonadStateOf.get,StateT.get,h.binary]
  rfl

section

variable {pieces : List Piece} {post : Node → Prop}
  (hquiet : ∀ t : State, t.Before source later → Quiet t.peek)
include hquiet

/-- A quiet token adds nothing to an operand without an operator in front. -/
lemma ends_readUnary_quiet (hoperator : s.peek.isUnaryOperator = false) (hstep : s.peek.isStep = false)
    (hawait : (s.inAsync && s.peek.isName "await") = false)
    (h : Ends [] (operand go) s (Past source s pieces later post)) :
    Ends [] (readUnary go) s (Past source s pieces later post) :=
  ends_readUnary_plain hoperator hstep hawait (fun _ t ht => (hquiet t ht.2.1).endsOperand.isStep) h

/-- A quiet token adds nothing to an operand. -/
lemma ends_plainAssignment_quiet (h : Ends [] (readUnary go) s (Past source s pieces later post)) :
    Ends [] (plainAssignment go) s (Past source s pieces later post) := by
  have hend : ∀ n t, Past source s pieces later post n t →
      t.peek.isPunct "?" = false ∧ t.peek.isAssignmentOperator = false :=
    fun _ t ht => ⟨(hquiet t ht.2.1).punct "?" (by decide),(hquiet t ht.2.1).assignment⟩
  apply ends_plainAssignment_plain hend
  unfold readBinary
  rw [ends_start]
  refine h.bind fun n t ht => ?_
  unfold Ends
  rw [iterate_none (extendBinary_quiet (hquiet t ht.2.1))]
  exact ht

/-- A quiet token ends a row of expressions. -/
lemma ends_expression_quiet (hdepth : s.depth < maxNesting)
    (h : Ends [] (go .assignment) { s with depth := s.depth + 1 }
      (Past source { s with depth := s.depth + 1 } pieces later post)) :
    Ends [] (expression go) s (Past source s pieces later post) :=
  ends_expression_plain (fun _ t ht => (hquiet t ht.2.1).punct "," (by decide)) (ends_nested hdepth h)

end

lemma ends_readUnary_digits (levels : Nat) (h : s.Before source (⟨gap,.digits digits⟩ :: later))
    (hstop : StopsScript later) (hdepth : s.depth < maxNesting) :
    Ends [] (readUnary (readWithin (levels + 1))) s (Covers source s [⟨gap,.digits digits⟩] later) := by
  have hpeek := h.peek_cons
  have hoperand : Ends [] (operand (readWithin (levels + 1))) s
      (Covers source s [⟨gap,.digits digits⟩] later) :=
    ends_operand_plain (by rw [hpeek]; rfl) (fun _ t ht => (hstop.quiet ht.2.1).endsOperand)
      (ends_nested hdepth (ends_readPrimary_digits (h.deeper _)))
  have hawait : (s.inAsync && s.peek.isName "await") = false := by
    rw [hpeek]
    exact Bool.and_false _
  exact ends_readUnary_quiet (fun _ ht => hstop.quiet ht) (by rw [hpeek]; rfl) (by rw [hpeek]; rfl) hawait
    hoperand

/-- A number with its sign is an operand. -/
lemma ends_readUnary_numeral (levels : Nat) (value : Numeral)
    (h : s.Before source (value.pieces gap ++ later)) (hstop : StopsScript later)
    (hdepth : s.depth + 1 < maxNesting) :
    Ends [] (readUnary (readWithin (levels + 2))) s (Covers source s (value.pieces gap) later) := by
  obtain ⟨negative,digits⟩ := value
  cases negative with
  | false => exact ends_readUnary_digits _ h hstop (by omega)
  | true =>
    have h : s.Before source (⟨gap,.mark .minus⟩ :: ⟨.none,.digits digits⟩ :: later) := h
    obtain ⟨hdigits,hminus⟩ := h.advance
    unfold readUnary
    rw [ends_peek,if_pos (by rw [h.peek_cons]; simp [Token.isUnaryOperator,Glyph.kind]; decide)]
    unfold prefixed
    rw [ends_start,ends_skip,h.front_cons]
    have hdepth' : s.advance.depth + 1 < maxNesting := by rwa [hminus.depth]
    have hargument := ends_readUnary_digits levels (hdigits.deeper (s.advance.depth + 1)) hstop hdepth'
    refine (ends_nested (Nat.lt_of_succ_lt hdepth') hargument).past hminus fun n t _ ht hpassed => ?_
    exact ends_finish hpassed ht fun _ => rfl

/-- A number starts with no word and with no punctuator but a sign. -/
lemma Numeral.plain_peek (value : Numeral) (h : s.Before source (value.pieces gap ++ later)) :
    s.peek.isBindable = false ∧ s.peek.kind ≠ .name ∧ (∀ text, s.peek.isName text = false) ∧
      ∀ text, text ≠ "-" → s.peek.isPunct text = false := by
  obtain ⟨negative,digits⟩ := value
  cases negative with
  | false =>
    have hpeek := h.peek_cons (p := ⟨gap,.digits digits⟩)
    rw [hpeek]
    exact ⟨rfl,nofun,fun _ => rfl,fun _ _ => rfl⟩
  | true =>
    have hpeek := h.peek_cons (p := ⟨gap,.mark .minus⟩)
    have hminus : Mark.minus.text = "-" := by decide
    rw [hpeek]
    exact ⟨rfl,nofun,fun _ => rfl,fun text htext => by simpa [hminus] using htext.symm⟩

lemma ends_plainAssignment_numeral (levels : Nat) (value : Numeral)
    (h : s.Before source (value.pieces gap ++ later)) (hstop : StopsScript later)
    (hdepth : s.depth + 1 < maxNesting) :
    Ends [] (plainAssignment (readWithin (levels + 2))) s (Covers source s (value.pieces gap) later) :=
  ends_plainAssignment_quiet (fun _ ht => hstop.quiet ht) (ends_readUnary_numeral levels value h hstop hdepth)

/-- No arrow function starts with a number. -/
lemma ends_readAssignment_numeral (levels : Nat) (value : Numeral)
    (h : s.Before source (value.pieces gap ++ later)) (hstop : StopsScript later)
    (hdepth : s.depth + 1 < maxNesting) :
    Ends [] (readAssignment (readWithin (levels + 2))) s (Covers source s (value.pieces gap) later) := by
  obtain ⟨hbindable,-,hname,hpunct⟩ := Numeral.plain_peek value h
  have hasync : s.startsAsyncArrow = false := by simp [State.startsAsyncArrow,hname]
  have harrow : s.arrowHeadAt 0 = none := by
    have hzero : s.ahead 0 = s.peek := rfl
    simp [State.arrowHeadAt,State.arrowListAt,hzero,hbindable,hpunct "(" (by decide)]
  exact ends_readAssignment_plain hasync harrow (by rw [hname,Bool.and_false])
    (ends_plainAssignment_numeral levels value h hstop hdepth)

lemma endStatement_quiet (h : Quiet s.peek) : endStatement s = .ok ((),s) := by
  unfold endStatement
  simp only [bind,StateT.bind,eatPunct_absent (h.punct ";" (by decide)),Except.bind]
  change (if s.peek.isPunct "\x7d" || s.peek.kind == .eof || s.peek.newlineBefore then _ else _ :
    Parser Unit) s = _
  rw [h.ended]
  rfl

/-- A number is a script of its own. -/
lemma ends_script (levels : Nat) (value : Numeral) (h : s.Before source (value.pieces gap ++ later))
    (hstop : StopsScript later) (hdepth : s.depth + 2 < maxNesting) :
    Ends [] (script (readWithin (levels + 3))) s (Covers source s (value.pieces gap) later) := by
  obtain ⟨-,hkind,-,hpunct⟩ := Numeral.plain_peek value h
  have hassignment := ends_readAssignment_numeral levels value (h.deeper (s.depth + 1)) hstop hdepth
  have hexpression : Ends [] (expression (readWithin (levels + 3))) s
      (Covers source s (value.pieces gap) later) :=
    ends_expression_quiet (fun _ ht => hstop.quiet ht) (by omega) hassignment
  have hstatement : (s.peek.isPunct "\x7b" || s.peek.isPunct ";" ||
      (s.peek.kind == .name && scriptWords.contains s.peek.text)) = false := by
    simp [hpunct "\x7b" (by decide),hpunct ";" (by decide),hkind]
  unfold script
  rw [ends_peek,hstatement]
  simp only [Bool.false_eq_true,if_false]
  unfold expressionStatement finishStatement
  rw [ends_start]
  refine hexpression.past (.refl s) fun n t _ ht hpassed => ?_
  rw [ends_get,ends_known (endStatement_quiet (hstop.quiet ht))]
  obtain ⟨p,pieces,hpieces⟩ : ∃ p pieces, value.pieces gap = p :: pieces := by
    unfold Numeral.pieces
    split <;> exact ⟨_,_,rfl⟩
  rw [hpieces] at h hpassed ⊢
  have h : s.Before source (p :: (pieces ++ later)) := h
  rw [h.front_cons,hpassed.spanFrom]
  exact ends_make hpassed ht fun _ => rfl

end

end QmlCodeModel.Grammar
