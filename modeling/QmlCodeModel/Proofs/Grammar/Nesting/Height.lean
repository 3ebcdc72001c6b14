import QmlCodeModel.Proofs.Grammar.Nesting.Source
import QmlCodeModel.Proofs.Grammar.Operators.Reading
import QmlCodeModel.Proofs.Sketch.Document

/-! How high the tree of a source can be. The levels of the goals bound its counted nesting, and nothing but the
length of a source bounds how far a run goes on: the tree of a dotted name is as high as there are names behind
the first, and the tree of a row of powers, each of which is read within the one before, as there are powers. -/
namespace QmlCodeModel.Grammar

variable {source : String} {s t : State} {gap : Gap} {go : Reader} {start : Nat} {operand : Node}

/-! Dotted names as expressions. -/

lemma State.Before.peek_nil (h : s.Before source []) : s.peek = s.eof := by
  rw [peek,h.rest]
  rfl

lemma State.Before.quiet_nil (h : s.Before source []) : Quiet s.peek :=
  quiet_of_eof (h.peek_nil ▸ h.eof)

/-- One more name after a dot goes around the operand. -/
lemma ends_extendOperand_dot {allowCalls : Bool} {name : Name} {later : List Piece}
    (h : s.Before source (⟨.none,.mark .dot⟩ :: ⟨.none,.word name.toWord⟩ :: later)) :
    Ends [] (extendOperand go start allowCalls operand) s
      (Past source s [⟨.none,.mark .dot⟩,⟨.none,.word name.toWord⟩] later fun next =>
        ∃ n : Node, next = some n ∧ n.height = operand.height + 1) := by
  obtain ⟨hname,hdot⟩ := h.advance
  have hpunct : s.peek.isPunct "." := by
    rw [h.peek_cons,Piece.token_mark_isPunct]
    decide
  unfold extendOperand
  rw [ends_peek,if_pos hpunct,ends_skip]
  unfold memberOf
  refine (ends_name hname).past hdot fun name? t hname? ht hpassed => ?_
  subst hname?
  simp only
  rw [ends_map]
  have hmade {kind : Kind Node} (hkind : kind.children = [operand]) : Ends [] (finish kind start) t
      (Past source s [⟨.none,.mark .dot⟩,⟨.none,.word name.toWord⟩] later fun n =>
        n.height = operand.height + 1) :=
    ends_make hpassed ht fun id => Node.height_of_children hkind
  exact (hmade rfl).mono fun n u hu => ⟨⟨n,rfl,hu.1⟩,hu.2⟩

/-- The names behind the first one go around it one after the other. -/
lemma ends_operandTail (names : List Name) (rounds : Nat)
    (h : s.Before source (DottedName.tail names)) (hrounds : names.length ≤ rounds) :
    Ends [] (iterateWithin (extendOperand go start true) (rounds + 1) operand) s
      (Past source s (DottedName.tail names) [] fun n => n.height = operand.height + names.length) := by
  induction names generalizing s rounds operand with
  | nil =>
    unfold iterateWithin
    rw [ends_known (extendOperand_none h.quiet_nil.endsOperand)]
    exact ⟨rfl,h,.refl s⟩
  | cons n names ih =>
    obtain ⟨rounds,rfl⟩ := Nat.exists_eq_add_of_le' (Nat.le_trans (Nat.succ_pos _) hrounds)
    unfold iterateWithin
    refine (ends_extendOperand_dot h).past (.refl s) fun next t hnext ht hpassed => ?_
    obtain ⟨x,rfl,hx⟩ := hnext
    refine (ih rounds ht (Nat.le_of_succ_le_succ hrounds)).mono fun root u hu => ?_
    obtain ⟨hroot,hu,hlater⟩ := hu
    refine ⟨?_,hu,hpassed.trans hlater⟩
    simp only [hroot,hx,List.length_cons]
    omega

/-- A name that is no word of the grammar is an expression by itself. -/
lemma ends_readPrimary_name {name : Name} {later : List Piece}
    (h : s.Before source (⟨gap,.word name.toWord⟩ :: later)) (hnext : (s.ahead 1).kind ≠ .name) :
    Ends [] (readPrimary go) s (Past source s [⟨gap,.word name.toWord⟩] later fun n => n.height = 0) := by
  obtain ⟨hlater,hpassed⟩ := h.advance
  have hnext : (s.ahead 1).isName "function" = false := by simp [Token.isName,hnext]
  unfold readPrimary
  rw [ends_peek,h.peek_cons]
  simp only [Piece.token_kind,Glyph.kind]
  rw [ends_ahead,namedPrimary_name name rfl (by rw [hnext,Bool.and_false])]
  unfold leaf
  rw [ends_start,ends_skip]
  exact ends_make hpassed hlater fun id => Node.height_of_bare rfl

section

variable {d : DottedName} (h : s.Before source (d.pieces gap))
include h

/-- What stands behind the first name is a dot, or the end. -/
lemma second_of_dottedName : (s.ahead 1).kind ≠ .name ∧ (s.ahead 1).isPunct "=>" = false ∧
    (s.ahead 1).isPunct "(" = false := by
  obtain ⟨first,later⟩ := d
  cases later with
  | nil =>
    have hahead : s.ahead 1 = s.eof := by rw [State.ahead,h.rest]; rfl
    rw [hahead]
    simp [Token.isPunct,h.eof]
  | cons n names =>
    have h : s.Before source (⟨gap,.word first.toWord⟩ :: ⟨.none,.mark .dot⟩ :: _) := h
    rw [h.ahead_one,Piece.token_mark_isPunct,Piece.token_mark_isPunct]
    exact ⟨by simp [Glyph.kind],by decide,by decide⟩

lemma ends_readUnary_name (levels : Nat) (hdepth : s.depth < maxNesting) (hasync : s.inAsync = false) :
    Ends [] (readUnary (readWithin (levels + 1))) s
      (Past source s (d.pieces gap) [] fun n => n.height = d.later.length) := by
  obtain ⟨hnext,-,-⟩ := second_of_dottedName h
  have h : s.Before source (⟨gap,.word d.first.toWord⟩ :: DottedName.tail d.later) := h
  have hhead : Ends [] (operandHead (readWithin (levels + 1))) s
      (Past source s [⟨gap,.word d.first.toWord⟩] (DottedName.tail d.later) fun n => n.height = 0) := by
    have hnew : (s.peek.isName "new") = false := by
      rw [h.peek_cons]
      exact Name.text_ne d.first (by decide)
    unfold operandHead
    rw [ends_atName,hnew]
    exact ends_nested hdepth (ends_readPrimary_name (h.deeper _) hnext)
  have hoperand : Ends [] (operand (readWithin (levels + 1))) s
      (Past source s (d.pieces gap) [] fun n => n.height = d.later.length) := by
    unfold operand
    rw [ends_start]
    refine hhead.past (.refl s) fun head t hhead ht hpassed => ?_
    have hrounds : d.later.length ≤ t.rest.length := by
      rw [ht.rest,length_tokensAt]
      exact length_tail d.later
    have htail : Ends [] (operandTail (readWithin (levels + 1)) s.front true head) t _ :=
      ends_operandTail d.later _ ht hrounds
    refine htail.mono fun n u hu => ⟨?_,hu.2.1,hpassed.trans hu.2.2⟩
    simp only [hu.1,hhead]
    omega
  refine ends_readUnary_quiet (fun _ ht => ht.quiet_nil) ?_ ?_ (by rw [hasync]; rfl) hoperand
  · rw [h.peek_cons]
    exact isUnaryOperator_name d.first rfl
  · rw [h.peek_cons]
    rfl

lemma ends_readAssignment_name (levels : Nat) (hdepth : s.depth < maxNesting) (hasync : s.inAsync = false)
    (hgenerator : s.inGenerator = false) :
    Ends [] (readAssignment (readWithin (levels + 1))) s
      (Past source s (d.pieces gap) [] fun n => n.height = d.later.length) := by
  obtain ⟨hnext,harrow,hlist⟩ := second_of_dottedName h
  have hunary := ends_readUnary_name h levels hdepth hasync
  have hasyncArrow : s.startsAsyncArrow = false := by
    simp [State.startsAsyncArrow,State.arrowListAt,hnext,hlist]
  have hnoList : (s.ahead 0).isPunct "(" = false := by
    change s.peek.isPunct "(" = false
    rw [State.Before.peek_cons h]
    rfl
  have hnone : s.arrowHeadAt 0 = none := by simp [State.arrowHeadAt,State.arrowListAt,harrow,hnoList]
  exact ends_readAssignment_plain hasyncArrow hnone (by rw [hgenerator,Bool.false_and])
    (ends_plainAssignment_quiet (fun _ ht => ht.quiet_nil) hunary)

lemma ends_readSingleExpression_name (levels : Nat) (hdepth : s.depth + 1 < maxNesting)
    (hasync : s.inAsync = false) (hgenerator : s.inGenerator = false) :
    Ends [] (readSingleExpression (readWithin (levels + 2))) s
      (Past source s (d.pieces gap) [] fun n => n.height = d.later.length) := by
  have hassignment := ends_readAssignment_name (h.deeper (s.depth + 1)) levels hdepth hasync hgenerator
  have hexpression : Ends [] (expression (readWithin (levels + 2))) s
      (Past source s (d.pieces gap) [] fun n => n.height = d.later.length) :=
    ends_expression_quiet (fun _ ht => ht.quiet_nil) (Nat.lt_of_succ_lt hdepth) hassignment
  have hstart : s.peek.kind ≠ .eof := by
    rw [State.Before.peek_cons h]
    nofun
  exact ends_readSingleExpression_plain hstart (fun _ t ht => by rw [ht.2.1.peek_nil,ht.2.1.eof]) hexpression

end

lemma written_dottedName (d : DottedName) : written (d.pieces .none) = d.joined.toList := by
  obtain ⟨first,later⟩ := d
  have hdot : Mark.dot.text.toList = ['.'] := by decide
  unfold DottedName.joined DottedName.names DottedName.pieces
  rw [String.toList_intercalate,List.map_map]
  simp only
  induction later generalizing first with
  | nil => simp [DottedName.tail,written,Piece.chars,Gap.chars,Glyph.text]
  | cons n names ih =>
    have hlater := ih n
    rw [List.map_cons,List.map_cons,List.intercalate_cons_cons,← List.map_cons,← hlater]
    simp [DottedName.tail,written,Piece.chars,Gap.chars,Glyph.text,hdot]

lemma joined_replicate (name : Name) (n : Nat) :
    DottedName.joined { first := name, later := List.replicate n name } =
      ".".intercalate (List.replicate (n + 1) name.text) := by
  simp [DottedName.joined,DottedName.names,List.replicate_succ]

/-- A dotted name is read as an expression that is as high as there are names behind the first. -/
theorem height_dottedName (d : DottedName) : ∃ p, parse? .expression d.joined = some p ∧
    p.diagnostics = [] ∧ p.root.height = d.later.length := by
  have hlegible : Legible (d.pieces .none) := by simpa using d.legible .nil (by simp [FollowsName])
  obtain ⟨hbefore,hdepth,hdiagnostics⟩ := before_opening hlegible
  rw [written_dottedName] at hbefore hdepth hdiagnostics
  have hfollows := opening_follows d.joined.toList
  refine exists_parse_expression (fun n => n.height = d.later.length) fun levels _ => ?_
  have hread := ends_readSingleExpression_name hbefore levels (by rw [hdepth]; decide) hfollows.inAsync
    hfollows.inGenerator
  exact hread.mono fun n t ht => ⟨ht.1,ht.2.2.diagnostics.trans hdiagnostics⟩

/-! Rows of powers. -/

/-- Powers of one operand. -/
def powers (x : Operand) (count : Nat) : OperatorRow :=
  { first := x, later := List.replicate count ({ text := "**" },x) }

lemma text_powers (x : Operand) (count : Nat) :
    (powers x count).text = " ** ".intercalate (List.replicate (count + 1) x.text) := by
  apply String.toList_injective
  have hbetween : " ** ".toList = [' ','*','*',' '] := by decide
  rw [OperatorRow.toList_text,String.toList_intercalate,hbetween,powers]
  induction count with
  | zero => simp [OperatorRow.charsBehind]
  | succ count ih =>
    simp only [OperatorRow.charsBehind,List.replicate_succ,List.flatMap_cons,List.map_cons] at ih ⊢
    rw [List.intercalate_cons_cons,← ih]
    simp

/-- A power has no operation as its left operand, so that each stands below the one before. -/
lemma height_of_powers {n : Node} {t : OperatorTree} (h : n.Depicts t) (hgrouped : t.Grouped)
    (hpowers : ∀ p ∈ t.row.later, p.1.isPower) : n.height = t.row.later.length := by
  induction h with
  | @operand n x h =>
    exact Node.height_of_bare (by rw [Node.children,h]; rfl)
  | @operation n left right op l r h hleft _ _ ih =>
    have hchildren : n.children = [left,right] := by rw [Node.children,h]; rfl
    obtain _ | ⟨_,hright,hleftTop,-⟩ := hgrouped
    simp only [OperatorTree.row,List.mem_append,List.mem_cons] at hpowers
    have hop : op.isPower := hpowers _ (.inr (.inl rfl))
    have hbare : left.height = 0 ∧ l.row.later = [] := by
      cases hleft with
      | operand hx => exact ⟨Node.height_of_bare (by rw [Node.children,hx]; rfl),rfl⟩
      | @operation _ _ _ inner _ _ _ _ _ =>
        have hbinds := hleftTop inner rfl
        have hmost := inner.precedence_le
        rw [BinaryOperator.leftLevel,if_pos hop,op.isPower_iff.mp hop] at hbinds
        omega
    have hheight := ih hright fun p hp => hpowers p (.inr (.inr hp))
    have hbelow : n.height = right.height + 1 := by
      apply Nat.le_antisymm
      · rw [Node.height_le,hchildren]
        simp [hbare.1]
      · exact Node.height_le.mp (Nat.le_refl n.height) right (by simp [hchildren])
    simp [OperatorTree.row,hbelow,hheight,hbare.2]

/-- A row of powers is read without a complaint, and its tree is as high as there are powers. -/
theorem height_powers (x : Operand) (count : Nat) :
    ∃ p, parse? .expression (" ** ".intercalate (List.replicate (count + 1) x.text)) = some p ∧
      p.diagnostics = [] ∧ p.root.height = count := by
  obtain ⟨p,hp,hdiagnostics,tree,hdepicts,hgrouped,hrow⟩ := parse_row (powers x count)
  rw [text_powers] at hp
  have hlater : tree.row.later = List.replicate count ({ text := "**" },x) := congrArg OperatorRow.later hrow
  refine ⟨p,hp,hdiagnostics,?_⟩
  rw [height_of_powers hdepicts hgrouped,hlater,List.length_replicate]
  rw [hlater]
  intro pair hpair
  rw [List.eq_of_mem_replicate hpair]
  rfl

end QmlCodeModel.Grammar

namespace QmlCodeModel

open Grammar

/-- The tree of a source is nested no deeper than the levels of the goals allow, whatever the source is, as far as
levels are counted. It is higher than that only by the operators and tails that follow one another on one operand,
and by the powers that are read one within the other. -/
theorem Parse.height_bounded {form : SourceForm} {source : String} {p : Parse}
    (h : parse? form source = some p) :
    p.root.nesting ≤ form.deepest ∧ p.root.height < (form.deepest + 1) * (p.root.longestRun + 1) := by
  have hnesting := nesting_of_parse? h
  refine ⟨hnesting,Nat.lt_of_lt_of_le p.root.height_lt ?_⟩
  exact Nat.mul_le_mul_right _ (Nat.succ_le_succ hnesting)

/-- A call with a member as its argument. -/
theorem Parse.height_bounded_call : ∃ p, parse? .expression "f(a.b)" = some p ∧
    p.root.nesting ≤ 2049 ∧ p.root.height < 2050 * (p.root.longestRun + 1) := by
  have hsome : (parse? .expression "f(a.b)").isSome := by decide +kernel
  obtain ⟨p,hp⟩ := Option.isSome_iff_exists.mp hsome
  exact ⟨p,hp,Parse.height_bounded hp⟩

/-- Two thousand and forty-nine powers one within the other are read without a complaint, and so is a name with two
thousand and fifty parts. Their trees are higher than sixteen layers for each level. -/
theorem Parse.height_exceeds :
    (∃ p, parse? .expression (" ** ".intercalate (List.replicate 2050 "a")) = some p ∧
      p.diagnostics = [] ∧ 16 * maxNesting < p.root.height) ∧
    ∃ p, parse? .expression (".".intercalate (List.replicate 2050 "a")) = some p ∧
      p.diagnostics = [] ∧ 16 * maxNesting < p.root.height := by
  let part : Name := { text := "a" }
  obtain ⟨p,hp,hdiagnostics,hheight⟩ := height_powers { text := "a" } 2049
  obtain ⟨q,hq,hclean,hhigh⟩ := height_dottedName { first := part, later := List.replicate 2049 part }
  rw [joined_replicate] at hq
  rw [List.length_replicate] at hhigh
  exact ⟨⟨p,hp,hdiagnostics,hheight ▸ (by decide)⟩,q,hq,hclean,hhigh ▸ (by decide)⟩

end QmlCodeModel
