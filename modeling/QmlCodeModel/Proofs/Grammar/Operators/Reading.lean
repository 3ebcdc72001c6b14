import QmlCodeModel.Proofs.Grammar.Operators.Text
import QmlCodeModel.Proofs.Grammar.Plain

/-! Rows of operators and operands are read by climbing from one precedence to the next. From a threshold on,
the grammar takes the longest part of a row whose operators all bind tighter, and groups it. -/
namespace QmlCodeModel.Grammar

open OperatorRow

variable {go : Reader} {s t : State} {depth : Nat} {token : Token} {tokens : List Token} {x : Operand}
  {later : List (BinaryOperator × Operand)}

/-- The state is in an expression before these tokens, with which the source ends, and nothing has been
reported. -/
structure State.Awaits (s : State) (depth : Nat) (tokens : List Token) : Prop where
  rest : s.rest.map Token.bare = tokens
  eof : s.eof.kind = .eof
  depth : s.depth = depth
  allowIn : s.allowIn = true
  inAsync : s.inAsync = false
  inGenerator : s.inGenerator = false
  diagnostics : s.diagnostics = #[]

namespace State.Awaits

lemma peek_cons (h : s.Awaits depth (token :: tokens)) : s.peek.bare = token := by
  obtain ⟨t,rest,hrest,ht,-⟩ := List.map_eq_cons_iff.mp h.rest
  rw [peek,hrest]
  exact ht

lemma peek_nil (h : s.Awaits depth []) : s.peek.kind = .eof := by
  rw [peek,List.map_eq_nil_iff.mp h.rest]
  exact h.eof

lemma advance (h : s.Awaits depth (token :: tokens)) : s.advance.Awaits depth tokens := by
  obtain ⟨t,rest,hrest,-,htokens⟩ := List.map_eq_cons_iff.mp h.rest
  unfold State.advance
  rw [hrest]
  exact ⟨htokens,h.eof,h.depth,h.allowIn,h.inAsync,h.inGenerator,h.diagnostics⟩

lemma ahead_one (h : s.Awaits depth (token :: tokens)) : s.ahead 1 = s.advance.peek := by
  obtain ⟨t,rest,hrest,-⟩ := List.map_eq_cons_iff.mp h.rest
  simp [ahead,peek,State.advance,hrest]

lemma length_rest (h : s.Awaits depth tokens) : s.rest.length = tokens.length := by
  rw [← h.rest,List.length_map]

/-- The same tokens are to come at another depth. -/
lemma within (h : s.Awaits depth tokens) (inner : Nat) : { s with depth := inner }.Awaits inner tokens :=
  ⟨h.rest,h.eof,rfl,h.allowIn,h.inAsync,h.inGenerator,h.diagnostics⟩

end State.Awaits

/-- Making a node leaves the tokens to come as they are. -/
lemma ends_finish_awaits {kind : Kind Node} {start : Nat} (h : s.Awaits depth tokens) :
    Ends [] (finish kind start) s fun n t => n.kind = kind ∧ t.Awaits depth tokens :=
  ⟨rfl,h.rest,h.eof,h.depth,h.allowIn,h.inAsync,h.inGenerator,h.diagnostics⟩

/-- A goal that is read one level deeper. -/
lemma ends_nested_awaits {goal : Goal} {shape : Node → Prop} {rest : List Token} (h : s.Awaits depth tokens)
    (hdepth : depth < maxNesting) (hgo : ∀ s : State, s.Awaits (depth + 1) tokens →
      Ends [] (go goal) s fun n t => shape n ∧ t.Awaits (depth + 1) rest) :
    Ends [] (nested go goal) s fun n t => shape n ∧ t.Awaits depth rest := by
  unfold nested
  rw [ends_get,if_neg (by rw [h.depth]; omega),ends_modify]
  refine (hgo _ (h.depth ▸ h.within _)).bind fun n t ht => ?_
  rw [ends_modify]
  refine ⟨ht.1,?_⟩
  have := ht.2.within (t.depth - 1)
  rwa [ht.2.depth,Nat.add_sub_cancel] at this ⊢

/-! Operands. -/

lemma endsOperand_token (op : BinaryOperator) : EndsOperand op.token ∧ op.token.isPunct "=>" = false := by
  have hall : ∀ text ∈ binaryOperators, text ≠ "=>" ∧ ∀ tail ∈ [".","?.","[","(","++","--"], text ≠ tail := by
    decide
  obtain ⟨harrow,htails⟩ := hall op.text op.listed
  refine ⟨⟨fun tail htail => ?_,?_⟩,?_⟩
  · simp [Token.isPunct,BinaryOperator.token,htails tail htail]
  · simp only [BinaryOperator.token,BinaryOperator.kind]
    split <;> rfl
  · simp [Token.isPunct,BinaryOperator.token,harrow]

/-- An operand ends before an operator and at the end of the source. -/
lemma State.Awaits.endsOperand (h : s.Awaits depth (tokensBehind later)) :
    EndsOperand s.peek ∧ s.peek.isPunct "=>" = false := by
  cases later with
  | nil =>
    have heof := State.Awaits.peek_nil h
    exact ⟨⟨fun _ _ => by simp [Token.isPunct,heof],by simp [heof]⟩,by simp [Token.isPunct,heof]⟩
  | cons p later =>
    obtain ⟨hends,harrow⟩ := endsOperand_token p.1
    rw [← State.Awaits.peek_cons h] at hends harrow
    exact ⟨⟨hends.punct,hends.template⟩,harrow⟩

lemma ends_readPrimary_operand (h : s.Awaits depth (x.token :: tokens)) :
    Ends [] (readPrimary go) s fun n t => n.kind = .identifier x.text ∧ t.Awaits depth tokens := by
  have hpeek := h.peek_cons
  have hkind : s.peek.kind = .name := congrArg Token.kind hpeek
  have htext : s.peek.text = x.text := congrArg Token.text hpeek
  have hasync : (s.peek.text == "async" && (s.ahead 1).isName "function") = false := by
    rw [htext,x.text_ne (by decide),Bool.false_and]
  unfold readPrimary
  rw [ends_peek,hkind]
  change Ends [] (ahead 1 >>= fun next => namedPrimary go s.peek next) s _
  rw [ends_ahead,namedPrimary_name x.toName htext hasync,htext]
  unfold leaf
  rw [ends_start,ends_skip]
  exact ends_finish_awaits h.advance

lemma ends_readUnary_operand (levels : Nat) (hdepth : depth < maxNesting)
    (h : s.Awaits depth (x.token :: tokensBehind later)) :
    Ends [] (readUnary (readWithin (levels + 1))) s fun n t =>
      n.kind = .identifier x.text ∧ t.Awaits depth (tokensBehind later) := by
  have hpeek := h.peek_cons
  have hname : s.peek.kind = .name := congrArg Token.kind hpeek
  have htext : s.peek.text = x.text := congrArg Token.text hpeek
  have hnew : s.peek.isName "new" = false := by
    rw [Token.isName,htext,Name.text_ne x.toName (by decide),Bool.and_false]
  apply ends_readUnary_plain
  · exact isUnaryOperator_name x.toName htext
  · simp [Token.isStep,Token.isPunct,hname]
  · rw [h.inAsync,Bool.false_and]
  · exact fun n t ht => ht.2.endsOperand.1.isStep
  · apply ends_operand_plain hnew fun n t ht => ht.2.endsOperand.1
    exact ends_nested_awaits h hdepth fun s hs => ends_readPrimary_operand hs

/-! Operators. -/

/-- What has been read of a row: a tree of operators that bind tighter than a threshold. Some of the row may
still be to come. -/
structure Climbed (above depth : Nat) (row : OperatorRow) (tree : OperatorTree)
    (rest : List (BinaryOperator × Operand)) (n : Node) (t : State) : Prop where
  depicts : n.Depicts tree
  grouped : tree.Grouped
  above : ∀ op ∈ tree.top?, above < op.precedence
  first : tree.row.first = row.first
  later : tree.row.later ++ rest = row.later
  awaits : t.Awaits depth (tokensBehind rest)

/-- No operator to come binds tighter than the threshold. -/
def ClimbsTo (above depth : Nat) (row : OperatorRow) (n : Node) (t : State) : Prop :=
  ∃ tree rest, Climbed above depth row tree rest n t ∧ ∀ p ∈ rest.head?, p.1.precedence ≤ above

/-- The tree may be the left operand of the operator to come. -/
def Climbing (above depth : Nat) (row : OperatorRow) (n : Node) (t : State) : Prop :=
  ∃ tree rest, Climbed above depth row tree rest n t ∧
    ∀ p ∈ rest.head?, ∀ op ∈ tree.top?, p.1.leftLevel ≤ op.precedence

section

variable {above : Nat} {row : OperatorRow} {tree : OperatorTree} {n : Node} {op : BinaryOperator}

lemma Climbed.length_le (h : Climbed above depth row tree later n t) : later.length ≤ row.later.length := by
  have hlength := congrArg List.length h.later
  rw [List.length_append] at hlength
  omega

/-- An operation on top of a tree and of the longest right operand that belongs to its operator. What follows
binds no tighter than the right operand allows, and takes the operation as its left operand. -/
lemma Climbed.operation {tree' : OperatorTree} {rest : List (BinaryOperator × Operand)} {right m : Node}
    {u v : State} (h : Climbed above depth row tree ((op,x) :: later) n t) (habove : above < op.precedence)
    (hleft : ∀ inner ∈ tree.top?, op.leftLevel ≤ inner.precedence)
    (hright : Climbed (op.rightLevel - 1) depth ⟨x,later⟩ tree' rest right u)
    (hrest : ∀ p ∈ rest.head?, p.1.precedence ≤ op.rightLevel - 1) (hm : m.kind = .binary op.text n right)
    (hv : v.Awaits depth (tokensBehind rest)) : Climbing above depth row m v := by
  have hfirst : tree'.row.first = x := hright.first
  have hlater : tree'.row.later ++ rest = later := hright.later
  refine ⟨.operation op tree tree',rest,⟨.operation hm h.depicts hright.depicts,?_,?_,h.first,?_,hv⟩,?_⟩
  · refine .operation h.grouped hright.grouped hleft fun inner hinner => ?_
    have := hright.above inner hinner
    omega
  · rintro _ ⟨⟩
    exact habove
  · simp [OperatorTree.row,← h.later,hfirst,hlater]
  · rintro p hp _ ⟨⟩
    have := hrest p hp
    have := op.precedence_pos
    have := op.precedence_le_rightLevel
    exact BinaryOperator.leftLevel_le_iff.mpr (by omega)

lemma State.Awaits.binaryPrecedence? (h : s.Awaits depth (op.token :: tokens)) :
    s.peek.binaryPrecedence? s.allowIn = some op.precedence := by
  rw [h.allowIn,← op.binaryPrecedence?_token,← h.peek_cons]
  rfl

/-- An operator that binds tighter than the threshold is put on top of what has been read, and its right
operand is read from a threshold of its own. -/
lemma ends_extendBinary_operator {start : Nat} (h : Climbed above depth row tree ((op,x) :: later) n t)
    (habove : above < op.precedence) (hleft : ∀ inner ∈ tree.top?, op.leftLevel ≤ inner.precedence)
    (hgo : ∀ s : State, s.Awaits depth (OperatorRow.tokens ⟨x,later⟩) →
      Ends [] (go (.binary (op.rightLevel - 1))) s (ClimbsTo (op.rightLevel - 1) depth ⟨x,later⟩)) :
    Ends [] (extendBinary go start above n) t fun next u => ∃ m, next = some m ∧
      Climbing above depth row m u ∧ u.rest.length < t.rest.length := by
  have hawaits : t.Awaits depth (op.token :: OperatorRow.tokens ⟨x,later⟩) := h.awaits
  have htext : t.peek.text = op.text := congrArg Token.text hawaits.peek_cons
  have hthreshold : (if t.peek.text == "**" then op.precedence - 1 else op.precedence) = op.rightLevel - 1 := by
    rw [htext,BinaryOperator.rightLevel,BinaryOperator.isPower]
    split <;> rfl
  unfold extendBinary
  rw [ends_peek,ends_get,hawaits.binaryPrecedence?]
  simp only
  rw [if_neg (Nat.not_le.mpr habove),ends_skip,hthreshold]
  refine (hgo _ hawaits.advance).bind fun right u hu => ?_
  obtain ⟨tree',rest,hright,hrest⟩ := hu
  rw [ends_map,htext]
  refine (ends_finish_awaits hright.awaits).mono fun m v hv => ⟨m,rfl,?_,?_⟩
  · exact h.operation habove hleft hright hrest hv.1 hv.2
  · have hlength : rest.length ≤ later.length := hright.length_le
    rw [hv.2.length_rest,hawaits.length_rest]
    simp only [tokens,length_tokensBehind,List.length_cons]
    omega

end

/-- A step of the climb. It ends at an operator that binds no tighter than the threshold, and at the end of
the source. -/
lemma ends_extendBinary_row {above start : Nat} {row : OperatorRow} {n : Node}
    (h : Climbing above depth row n t)
    (hgo : ∀ (x : Operand) (later : List (BinaryOperator × Operand)), later.length < row.later.length →
      ∀ (above : Nat) (s : State), s.Awaits depth (OperatorRow.tokens ⟨x,later⟩) →
        Ends [] (go (.binary above)) s (ClimbsTo above depth ⟨x,later⟩)) :
    Ends [] (extendBinary go start above n) t fun next u => next = none ∧ ClimbsTo above depth row n u ∨
      ∃ m, next = some m ∧ Climbing above depth row m u ∧ u.rest.length < t.rest.length := by
  obtain ⟨tree,rest,hclimbed,hleft⟩ := h
  cases rest with
  | nil =>
    have hnone : t.peek.binaryPrecedence? t.allowIn = none := by
      simp [Token.binaryPrecedence?,hclimbed.awaits.peek_nil]
    unfold extendBinary
    rw [ends_peek,ends_get,hnone]
    exact .inl ⟨rfl,tree,[],hclimbed,by simp⟩
  | cons p rest =>
    obtain ⟨op,x⟩ := p
    by_cases habove : above < op.precedence
    · have hstep := hgo x rest hclimbed.length_le (op.rightLevel - 1)
      exact (ends_extendBinary_operator hclimbed habove (hleft _ rfl) hstep).mono fun next u hu => .inr hu
    · unfold extendBinary
      have hawaits : t.Awaits depth (op.token :: x.token :: tokensBehind rest) := hclimbed.awaits
      rw [ends_peek,ends_get,hawaits.binaryPrecedence?]
      simp only
      rw [if_pos (Nat.not_lt.mp habove)]
      exact .inl ⟨rfl,tree,_,hclimbed,by simpa using habove⟩

/-- From a threshold on the grammar climbs as far as the operators bind tighter. One level is used up for each
right operand inside another. -/
theorem climbsTo_readBinary (levels : Nat) (hdepth : depth < maxNesting) (row : OperatorRow)
    (hlevels : row.later.length ≤ levels) (above : Nat) (h : s.Awaits depth row.tokens) :
    Ends [] (readBinary (readWithin (levels + 1)) above) s (ClimbsTo above depth row) := by
  induction levels using Nat.strongRecOn generalizing row above s with
  | ind levels ih =>
    have hgo (x : Operand) (later : List (BinaryOperator × Operand)) (hlength : later.length < row.later.length)
        (above : Nat) (s : State) (hs : s.Awaits depth (OperatorRow.tokens ⟨x,later⟩)) :
        Ends [] (readWithin (levels + 1) (.binary above)) s (ClimbsTo above depth ⟨x,later⟩) := by
      cases levels with
      | zero => exact absurd hlength (by omega)
      | succ levels => exact ih levels (Nat.lt_succ_self _) ⟨x,later⟩ (by dsimp only; omega) above hs
    unfold readBinary
    rw [ends_start]
    refine (ends_readUnary_operand levels hdepth h).bind fun n t ht => ?_
    have hstart : Climbing above depth row n t :=
      ⟨.operand row.first,row.later,⟨.operand ht.1,.operand _,nofun,rfl,rfl,ht.2⟩,fun _ _ => nofun⟩
    unfold iterate
    rw [ends_upcoming]
    refine ends_iterateWithin (fun m u (hm : Climbing above depth row m u) => .inr ?_) _ n hstart
      (Nat.lt_succ_self _)
    refine (ends_extendBinary_row hm hgo).mono fun next v hv => ?_
    obtain ⟨rfl,hnone⟩ | ⟨m,rfl,hsome⟩ := hv
    · exact hnone
    · exact hsome

/-! Rows as expressions. -/

/-- The node is a row that is grouped by its operators. -/
def GroupsRow (row : OperatorRow) (n : Node) : Prop := ∃ tree, n.Depicts tree ∧ tree.Grouped ∧ tree.row = row

section

variable {row : OperatorRow} (levels : Nat) (hlevels : row.later.length ≤ levels)
include hlevels

/-- Nothing binds less than the lowest threshold, so that all of a row is read. -/
lemma ends_readBinary_row (hdepth : depth < maxNesting) (h : s.Awaits depth row.tokens) :
    Ends [] (readBinary (readWithin (levels + 1)) 0) s fun n t => GroupsRow row n ∧ t.Awaits depth [] := by
  refine (climbsTo_readBinary levels hdepth row hlevels 0 h).mono fun n t ht => ?_
  obtain ⟨tree,rest,hclimbed,hrest⟩ := ht
  cases rest with
  | nil =>
    have hlater : tree.row.later = row.later := by rw [← hclimbed.later,List.append_nil]
    exact ⟨⟨tree,hclimbed.depicts,hclimbed.grouped,OperatorRow.ext hclimbed.first hlater⟩,hclimbed.awaits⟩
  | cons p rest => exact absurd (hrest p rfl) (Nat.not_le.mpr p.1.precedence_pos)

lemma ends_readAssignment_row (hdepth : depth < maxNesting) (h : s.Awaits depth row.tokens) :
    Ends [] (readAssignment (readWithin (levels + 1))) s fun n t => GroupsRow row n ∧ t.Awaits depth [] := by
  have h' : s.Awaits depth (row.first.token :: tokensBehind row.later) := h
  have hname : s.peek.kind = .name := congrArg Token.kind h'.peek_cons
  have htext : s.peek.text = row.first.text := congrArg Token.text h'.peek_cons
  have hpunct (text : String) : (s.ahead 0).isPunct text = false := by
    change s.peek.isPunct text = false
    simp [Token.isPunct,hname]
  have hnext : (s.ahead 1).isPunct "=>" = false := by
    rw [h'.ahead_one]
    exact h'.advance.endsOperand.2
  have hasync : s.startsAsyncArrow = false := by
    have hword := row.first.text_ne (show "async" ∈ contextualWords by decide)
    simp [State.startsAsyncArrow,Token.isName,htext,hword]
  have harrow : s.arrowHeadAt 0 = none := by simp [State.arrowHeadAt,State.arrowListAt,hnext,hpunct]
  apply ends_readAssignment_plain hasync harrow (by rw [h.inGenerator,Bool.false_and])
  refine ends_plainAssignment_plain (fun n t ht => ?_) (ends_readBinary_row levels hlevels hdepth h)
  simp [Token.isPunct,Token.isAssignmentOperator,ht.2.peek_nil]

lemma ends_readSingleExpression_row (h : s.Awaits 0 row.tokens) :
    Ends [] (readSingleExpression (readWithin (levels + 2))) s fun n t => GroupsRow row n ∧ t.Awaits 0 [] := by
  have hstart : s.peek.kind ≠ .eof := by
    have hpeek : s.peek.bare = row.first.token := State.Awaits.peek_cons h
    rw [show s.peek.kind = .name from congrArg Token.kind hpeek]
    nofun
  apply ends_readSingleExpression_plain hstart fun n t ht => ht.2.peek_nil
  apply ends_expression_plain fun n t ht => by simp [Token.isPunct,ht.2.peek_nil]
  refine ends_nested_awaits h (by decide) fun s hs => ?_
  exact ends_readAssignment_row levels hlevels (by decide) hs

end

/-- The state before the first token of a row. -/
lemma awaits_opening (row : OperatorRow) : (opening row.text.toList).Awaits 0 row.tokens := by
  obtain ⟨tokens,eof,htokens,hbare,heof,hfaults⟩ := row.tokenize_text
  unfold opening initialState
  dsimp only
  rw [htokens,hfaults,List.dropLast_concat,List.getLastD_concat]
  exact ⟨hbare,heof,rfl,rfl,rfl,rfl,rfl⟩

/-- A row is read without a complaint, and as one that is grouped by its operators. -/
lemma parse_row (row : OperatorRow) : ∃ p, parse? .expression row.text = some p ∧ p.diagnostics = [] ∧
    GroupsRow row p.root := by
  have hawaits := awaits_opening row
  refine exists_parse_expression (GroupsRow row) fun levels hlevels => ?_
  rw [hawaits.length_rest] at hlevels
  have hlater := row.length_later_le.trans hlevels
  exact (ends_readSingleExpression_row levels hlater hawaits).mono fun n t ht => ⟨ht.1,ht.2.diagnostics⟩

end QmlCodeModel.Grammar

namespace QmlCodeModel

open Grammar

/-- Operands with operators between them are read as one tree of operations, as many as there are operators,
without a complaint. From left to right the tree is the row as it is written, and of all trees with this row
it is the only one in which the operators are grouped by how tightly they bind: an operand of an operation is
an operation itself only if its operator binds tighter or, on the left of an operator that is no power and on
the right of a power, as tightly. -/
theorem OperatorRow.parse_text (row : OperatorRow) : ∃ p tree, parse? .expression row.text = some p ∧
    p.success ∧ p.diagnostics = [] ∧ p.root.Depicts tree ∧ tree.row = row ∧ tree.Grouped ∧
    (∀ other : OperatorTree, other.row = row → other.Grouped → other = tree) ∧
    (p.root.walk.countP fun n => n.kind.isBinary) = row.later.length := by
  obtain ⟨p,hp,hdiagnostics,tree,hdepicts,hgrouped,hrow⟩ := parse_row row
  refine ⟨p,tree,hp,?_,hdiagnostics,hdepicts,hrow,hgrouped,fun other hother hgroups => ?_,?_⟩
  · simp [Parse.success,hdiagnostics]
  · exact OperatorTree.eq_of_row hgroups hgrouped (hother.trans hrow.symm)
  · rw [hdepicts.countP_walk,hrow]

end QmlCodeModel
