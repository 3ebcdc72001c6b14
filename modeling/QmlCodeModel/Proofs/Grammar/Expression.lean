import QmlCodeModel.Proofs.Grammar.Function

/-! Expressions are readings, from literals up to assignments. -/
namespace QmlCodeModel.Grammar

section

variable {m : Nat} {go : Reader} {s t : State} {xs : List Node} (hgo : Obeys m go)
include hgo

/-- What stands in a round of an array literal, as a list of one. -/
lemma reading_arrayElement : Reading m (one (some <$> spreadOrAssignment go)) :=
  reading_one (reading_of_resumes fun _ => resumes_map
    ((reading_spreadOrAssignment hgo).resumes.congr (by simp)))

lemma reading_arrayRound : Reading m (arrayRound go) := by
  refine reading_of_resumes fun s => (reading_eatPunct ",").resumes_bind fun _ => ?_
  refine resumes_ite (fun _ => resumes_pure rfl) fun _ => ?_
  exact (reading_commaRound (reading_arrayElement hgo)).resumes.congr (by simp)

lemma arrayRound_takes (hs : s.Within m) : Ends s.rest (arrayRound go) s (Advance s) := by
  refine advance_eat hs kind_ne_eof_of_isPunct (resumes_pure rfl) ?_
  exact commaRound_takes (reading_arrayElement hgo) hs

lemma reading_arrayElements : Reading m (arrayElements go) :=
  reading_collectUntil (reading_arrayRound hgo) fun _ hs _ => arrayRound_takes hgo hs

omit hgo in
lemma nodes_holes (l : List (Option Node)) : nodes l = l.filterMap id := by
  induction l with
  | nil => rfl
  | cons o l ih =>
    rw [nodes_cons,ih]
    cases o <;> rfl

lemma reading_arrayLiteral : Reading m (arrayLiteral go) := by
  refine reading_start fun s => reading_skip.resumes_bind fun _ => ?_
  refine (reading_withIn true (reading_arrayElements hgo)).resumes_bind fun elements => ?_
  refine (reading_punct "]").resumes_bind fun _ => resumes_finish ?_ rfl
  simp [Kind.children,nodes_holes]

lemma reading_objectLiteral : Reading m (objectLiteral go) := by
  refine reading_start fun s => reading_skip.resumes_bind fun _ => ?_
  have hproperties := reading_commaSeparated "\x7d" (reading_one (reading_objectProperty hgo))
  refine (reading_withIn true hproperties).resumes_bind fun properties => ?_
  exact (reading_punct "\x7d").resumes_bind fun _ => resumes_finish (by simp [Kind.children]) rfl

omit hgo in
lemma reading_missingPrimary (fault : GrammarFault) : Reading m (missingPrimary fault) :=
  reading_of_resumes fun _ => (reading_reportHere fault).resumes_bind fun _ =>
    reading_errorNode.resumes

lemma reading_groupedInner : Reading m (groupedInner go) := by
  refine reading_of_resumes fun s => (reading_atPunct ")").resumes_bind fun _ => ?_
  refine resumes_ite (fun _ => ?_) fun _ => ?_
  · exact (reading_missingPrimary _).resumes.congr (by simp)
  · exact (reading_expressionWithIn hgo).resumes.congr (by simp)

lemma reading_groupedExpression : Reading m (groupedExpression go) := by
  refine reading_of_resumes fun s => reading_skip.resumes_bind fun _ => ?_
  refine (reading_groupedInner hgo).resumes_bind fun inner => ?_
  exact (reading_punct ")").resumes_bind fun _ => resumes_pure (by simp)

omit hgo in
lemma reading_leaf {kind : Kind Node} (h : kind.children = []) (plain : kind.isPlain) :
    Reading m (leaf kind) :=
  reading_start fun _ => reading_skip.resumes_bind fun _ => resumes_finish h plain

omit hgo in
/-- A leaf takes its token. -/
lemma leaf_takes (kind : Kind Node) (hs : s.Within m) (h : s.peek.kind ≠ .eof) :
    Ends s.rest (leaf kind) s fun _ t => t.rest.length < s.rest.length := hs.advance_lt h

omit hgo in
lemma leaf_of_wordLiteral? {word : String} {kind : Kind Node} (h : wordLiteral? word = some kind) :
    kind.children = [] ∧ kind.isPlain := by
  unfold wordLiteral? at h
  split at h <;> cases h <;> exact ⟨rfl,rfl⟩

/-- What starts with the name that comes next. -/
lemma ends_namedPrimary (hs : s.Within m) (hne : s.rest ≠ []) (next : Token) :
    Ends s.rest (namedPrimary go s.peek next) s fun n t => Reads s [n] t := by
  unfold namedPrimary
  split
  · rename_i h
    exact reading_leaf (leaf_of_wordLiteral? h).1 (leaf_of_wordLiteral? h).2 s hs
  split
  · exact ends_functionExpression hgo hs hne
  split
  · have hclass : Reading m (do
        let start ← start
        let parts ← classParts go false
        finish (.classExpression parts) start) :=
      reading_start fun s => (reading_classParts hgo false).resumes_bind fun parts => resumes_finish rfl rfl
    exact hclass s hs
  split
  · exact reading_nested hgo .newExpression s hs
  split
  · exact reading_missingPrimary _ s hs
  · exact Reads.identifier hs.ordered hne

lemma reading_readPrimary : Reading m (readPrimary go) := by
  intro s hs
  unfold readPrimary
  rw [ends_peek]
  cases h : s.peek.kind
  case name => exact ends_namedPrimary hgo hs (State.rest_ne_nil hs.eof (by simp [h])) _
  case number => exact reading_leaf rfl rfl s hs
  case string => exact reading_leaf rfl rfl s hs
  case template => exact reading_leaf rfl rfl s hs
  case regExp => exact reading_leaf rfl rfl s hs
  case punct =>
    change Ends s.rest (if _ then _ else if _ then _ else if _ then _ else _) s _
    split
    · exact reading_groupedExpression hgo s hs
    split
    · exact reading_arrayLiteral hgo s hs
    split
    · exact reading_objectLiteral hgo s hs
    · exact reading_missingPrimary _ s hs
  case eof => exact reading_missingPrimary _ s hs

omit hgo in
variable (go) in
lemma readPrimary_takes_template (hs : s.Within m) (h : s.peek.kind = .template) :
    Ends s.rest (readPrimary go) s fun _ t => t.rest.length < s.rest.length := by
  unfold readPrimary
  rw [ends_peek,h]
  exact leaf_takes _ hs (by simp [h])

lemma reading_postfixed : Reading m (postfixed go) := by
  refine reading_start fun s => (reading_operand hgo).resumes_bind fun argument => ?_
  refine reading_peek.resumes_bind fun t => resumes_ite (fun _ => ?_) fun _ => resumes_pure (by simp)
  exact reading_skip.resumes_bind fun _ => resumes_finish (by simp [Kind.children]) rfl

lemma reading_prefixed {layer : Node → Kind Node} (h : ∀ n, (layer n).children = [n])
    (plain : ∀ n, (layer n).isPlain) : Reading m (prefixed go layer) := by
  refine reading_start fun s => reading_skip.resumes_bind fun _ => ?_
  exact (reading_nested hgo .unary).resumes_bind fun argument => resumes_finish (by simp [h]) (plain _)

lemma reading_readUnary : Reading m (readUnary go) := by
  refine reading_of_resumes fun s => reading_peek.resumes_bind fun t => ?_
  refine resumes_ite (fun _ => (reading_prefixed hgo (fun _ => rfl) fun _ => rfl).resumes) fun _ => ?_
  refine resumes_ite (fun _ => (reading_prefixed hgo (fun _ => rfl) fun _ => rfl).resumes) fun _ => ?_
  refine reading_get.resumes_bind fun _ => ?_
  refine resumes_ite (fun _ => (reading_prefixed hgo (fun _ => rfl) fun _ => rfl).resumes) fun _ => ?_
  exact (reading_postfixed hgo).resumes

omit hgo in
lemma kind_ne_eof_of_binaryPrecedence? {t : Token} {allowIn : Bool} {n : Nat}
    (h : t.binaryPrecedence? allowIn = some n) : t.kind ≠ .eof := by
  intro heof
  simp [Token.binaryPrecedence?,heof] at h

/-- A round of a row of operators that goes on has taken the operator. -/
lemma ends_extendBinary (above : Nat) {left : Node} (hs : s.Within m) (ht : Reads s [left] t) :
    Ends s.rest (extendBinary go s.front above left) t (Extended s t (fun n => [n]) left) := by
  unfold extendBinary
  rw [ends_peek,ends_get]
  split
  · exact extended_none ht
  rename_i precedence h
  split
  · exact extended_none ht
  have hwithin := ht.follows.within hs
  have hlt := hwithin.advance_lt (kind_ne_eof_of_binaryPrecedence? h)
  have hbudget : t.advance.budget < m := by
    have hdepth := t.follows_advance.depth
    have := hwithin.budget
    unfold State.budget at *
    omega
  have hready := (t.follows_advance.within hwithin).toReady
  rw [ends_skip,ends_bind]
  have hright := hgo.reads (.binary (if t.peek.text == "**" then precedence - 1 else precedence))
    t.advance hready hbudget
  have hsuffix := t.follows_advance.rest
  refine (hright.of_suffix (hsuffix.trans ht.follows.rest)).mono fun right u hu => ?_
  rw [ends_map]
  have hfinish : Resumes m s _ (finish (.binary t.peek.text left right) s.front) nodes :=
    resumes_finish rfl rfl
  have hboth := (ht.append (.token t)).append hu
  refine (hfinish hs u (hboth.congr (by simp [Kind.children]) rfl)).mono fun n v hv => ?_
  have hle := (hv.2.trans hu.follows.rest).length_le
  exact ⟨hv.1,hv.2.trans (hu.follows.rest.trans hsuffix),fun _ => by omega⟩

lemma reading_readBinary (above : Nat) : Reading m (readBinary go above) := by
  refine reading_start fun s => (reading_readUnary hgo).resumes_bind fun left => ?_
  exact resumes_iterate (f := fun n => [n]) fun hs a t ht => .inr (ends_extendBinary hgo above hs ht)

lemma reading_conditional : Reading m (conditional go) := by
  refine reading_start fun s => (reading_readBinary hgo 0).resumes_bind fun test => ?_
  refine (reading_eatPunct "?").resumes_bind fun _ => resumes_ite (fun _ => ?_) fun _ => ?_
  · refine (reading_withIn true (reading_assignment hgo)).resumes_bind fun consequent => ?_
    refine (reading_punct ":").resumes_bind fun _ => ?_
    refine (reading_assignment hgo).resumes_bind fun alternate => ?_
    exact resumes_finish (by simp [Kind.children]) rfl
  · exact resumes_pure (by simp)

lemma reading_yieldArgument : Reading m (yieldArgument go) := by
  refine reading_of_resumes fun s => reading_peek.resumes_bind fun t => ?_
  refine resumes_ite (fun _ => resumes_pure rfl) fun _ => ?_
  exact resumes_map ((reading_assignment hgo).resumes.congr (by simp))

lemma reading_yieldExpression : Reading m (yieldExpression go) := by
  refine reading_start fun s => reading_skip.resumes_bind fun _ => ?_
  refine (reading_eatPunct "*").resumes_bind fun delegate => ?_
  refine (reading_yieldArgument hgo).resumes_bind fun argument => ?_
  exact resumes_finish (by simp [Kind.children]) rfl

omit hgo in
lemma reading_checkTarget (operator : String) (target : Node) :
    Reading m (checkTarget operator target) :=
  reading_ite (fun _ => reading_pure rfl) fun _ => reading_report _ _

lemma reading_plainAssignment : Reading m (plainAssignment go) := by
  refine reading_start fun s => (reading_conditional hgo).resumes_bind fun target => ?_
  refine reading_peek.resumes_bind fun t => resumes_ite (fun _ => ?_) fun _ => resumes_pure (by simp)
  refine (reading_checkTarget _ target).resumes_bind fun _ => reading_skip.resumes_bind fun _ => ?_
  refine (reading_assignment hgo).resumes_bind fun value => ?_
  exact resumes_finish (by simp [Kind.children]) rfl

lemma reading_readAssignment : Reading m (readAssignment go) := by
  intro s hs
  unfold readAssignment
  rw [ends_get]
  simp only
  split
  · exact ends_arrowFunction hgo hs ‹_›
  split
  · exact reading_yieldExpression hgo s hs
  · exact reading_plainAssignment hgo s hs

end

end QmlCodeModel.Grammar
