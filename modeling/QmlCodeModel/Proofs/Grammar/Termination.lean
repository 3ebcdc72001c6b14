import QmlCodeModel.Proofs.Grammar.Source

/-! When a source is read to its end. All loops of the grammar go on with a token taken or are left, save
for the tail of an operand: in a stalled state it goes on for ever, and this is the only way in which a
source has no answer. -/
namespace QmlCodeModel.Grammar

/-- A step that extends an operand takes a token or is the last, in these states. -/
def Extends (m : Nat) (states : State → Prop) (step : Nat → Node → Parser (Option Node)) : Prop :=
  ∀ s t operand, s.Within m → Reads s [operand] t → states t →
    Ends s.rest (step s.front operand) t fun next u => next.isSome → u.rest.length < t.rest.length

/-- Each loop of the grammar takes a token in a round or is left after it, whatever is missing and
however deep it stands. -/
structure LoopsAdvance (m : Nat) (go : Reader) : Prop where
  headers : Advances m header
  directives : Advances m directive
  nameTails : Advances m nameTail
  modifiers : ∀ s found, s.Within m → Ends s.rest (memberModifier found) s fun next t =>
    next.isSome → t.rest.length < s.rest.length
  objectMembers : Advances m (roundUntil (·.isPunct "\x7d") (everyRound (objectMember go)))
  arrayMembers : Advances m (roundUntil (·.isPunct "]") (commaRound (arrayMember go)))
  signalParameters : Advances m (roundUntil (·.isPunct ")") (commaRound signalParameter))
  enumMembers : Advances m (roundUntil (·.isPunct "\x7d") (commaRound enumMember))
  statements : ∀ stops, Advances m (roundUntil stops (everyRound (one (statement go))))
  switchCases : Advances m (roundUntil (·.isPunct "\x7d") (switchCase go))
  declarations : Advances m (variableDeclaration go)
  formalParameters : Advances m (roundUntil (·.isPunct ")") (commaRound (formalParameter go)))
  classElements : Advances m (roundUntil (·.isPunct "\x7d") (classRound go))
  sequences : Advances m (nextExpression go)
  arguments : Advances m (roundUntil (·.isPunct ")") (commaRound (one (spreadOrAssignment go))))
  arrayElements : Advances m (roundUntil (·.isPunct "]") (arrayRound go))
  properties : Advances m (roundUntil (·.isPunct "\x7d") (commaRound (one (objectProperty go))))
  operators : ∀ above, Extends m (fun _ => True) fun start => extendBinary go start above
  tails : ∀ allowCalls, Extends m (fun t => ¬t.Stalled) fun start => extendOperand go start allowCalls

variable {m : Nat} {go : Reader}

lemma advances_commaRound {α : Type} [Bears α] {part : Parser (List α)} (stops : Token → Bool)
    (h : Reading m part) : Advances m (roundUntil stops (commaRound part)) :=
  advances_roundUntil fun _ hs _ => commaRound_takes h hs

lemma advances_everyRound {α : Type} [Bears α] {part : Parser (List α)} (stops : Token → Bool)
    (h : Reading m part) : Advances m (roundUntil stops (everyRound part)) :=
  advances_roundUntil fun _ hs hrest => everyRound_takes h hs hrest

/-- The loops advance over any way to read goals that obeys. -/
theorem loopsAdvance (hgo : Obeys m go) : LoopsAdvance m go where
  headers := header_advances
  directives := directive_advances
  nameTails := nameTail_advances
  modifiers _ found hs := memberModifier_takes found hs
  objectMembers := advances_everyRound _ (reading_objectMember hgo)
  arrayMembers := advances_commaRound _ (reading_arrayMember hgo)
  signalParameters := advances_commaRound _ reading_signalParameter
  enumMembers := advances_commaRound _ reading_enumMember
  statements _ := advances_everyRound _ (reading_one (reading_statement hgo))
  switchCases := advances_roundUntil fun _ hs hrest => switchCase_takes hgo hs hrest
  declarations := variableDeclaration_advances hgo
  formalParameters := advances_commaRound _ (reading_formalParameter hgo)
  classElements := advances_roundUntil fun _ hs hrest => classRound_takes hgo hs hrest
  sequences := nextExpression_advances hgo
  arguments := advances_commaRound _ (reading_one (reading_spreadOrAssignment hgo))
  arrayElements := advances_roundUntil fun _ hs _ => arrayRound_takes hgo hs
  properties := advances_commaRound _ (reading_one (reading_objectProperty hgo))
  operators above _ _ _ hs ht _ := (ends_extendBinary hgo above hs ht).mono fun _ _ h => h.2.2
  tails allowCalls _ _ _ hs ht hstalled :=
    (ends_extendOperand hgo allowCalls hs ht hstalled).mono fun _ _ h => h.2.2

/-- A source has no answer exactly if the grammar comes to a stalled state before a token of it. -/
lemma parse?_eq_none_iff (form : SourceForm) (source : String) :
    parse? form source = none ↔ ∃ e, reading form source.toList = .error e ∧ e.Stalled ∧
      e.peek ∈ (opening source.toList).rest := by
  cases h : reading form source.toList with
  | ok result => simp [parse?,h,Except.toOption]
  | error e =>
    have hstalled := stalled_reading h
    simp [parse?,h,Except.toOption,hstalled]

/-- A source without a template has an answer, however deep its parts are nested. -/
theorem parse?_isSome_of_no_template (form : SourceForm) (source : String)
    (h : ∀ t ∈ (tokenize source.toList).tokens.toList, t.kind ≠ .template) :
    (parse? form source).isSome := by
  rw [Option.isSome_iff_ne_none]
  intro hnone
  obtain ⟨e,-,hstalled,hpeek⟩ := (parse?_eq_none_iff form source).mp hnone
  have hrest := (opening_follows source.toList).rest.subset hpeek
  exact h e.peek ((List.dropLast_sublist _).subset hrest) hstalled.1

/-- All loops of the grammar advance except at a template where no goal can be nested deeper. There the
tail of an operand goes on without a token in every round, and is not left after any number of them. A
source has no answer exactly if its reading comes to such a state. -/
theorem endless_iff_stalled (m : Nat) (form : SourceForm) (source : String) :
    LoopsAdvance m (readWithin m) ∧
    (∀ start allowCalls operand t, t.Stalled →
      (∃ next u, extendOperand (readWithin m) start allowCalls operand t = .ok (some next, u) ∧
        u.Stalled ∧ u.rest = t.rest) ∧
      ∀ rounds, ∃ e, iterateWithin (extendOperand (readWithin m) start allowCalls) rounds operand t =
        .error e ∧ e.Stalled ∧ e.rest = t.rest) ∧
    (parse? form source = none ↔ ∃ e, reading form source.toList = .error e ∧ e.Stalled ∧
      e.peek ∈ (opening source.toList).rest) := by
  refine ⟨loopsAdvance (obeys_readWithin m),?_,parse?_eq_none_iff form source⟩
  intro start allowCalls operand t h
  refine ⟨extendOperand_of_stalled _ start allowCalls operand h,fun rounds => ?_⟩
  exact iterateWithin_extendOperand_of_stalled _ start allowCalls rounds operand h

/-- A template behind as many operators as there are levels below the first. -/
def deepTemplate : String := String.ofList (List.replicate (maxNesting - 1) '!' ++ ['`','x','`'])

/-- The reading of this source comes to a stalled state, and no number of rounds ends it. -/
theorem deepTemplate_stalls : parse? .expression deepTemplate = none ∧
    ∃ e, reading .expression deepTemplate.toList = .error e ∧ e.Stalled ∧
      ∀ rounds, ∃ u, iterateWithin (extendOperand (readWithin 0) 0 true) rounds default e = .error u := by
  have hnone : parse? .expression deepTemplate = none := by
    rw [← Option.isNone_iff_eq_none]
    decide +kernel
  obtain ⟨e,he,hstalled,-⟩ := (parse?_eq_none_iff .expression deepTemplate).mp hnone
  refine ⟨hnone,e,he,hstalled,fun rounds => ?_⟩
  obtain ⟨u,hu,-⟩ := iterateWithin_extendOperand_of_stalled (readWithin 0) 0 true rounds default hstalled
  exact ⟨u,hu⟩

end QmlCodeModel.Grammar
