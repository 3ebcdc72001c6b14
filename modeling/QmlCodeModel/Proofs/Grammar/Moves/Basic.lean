import QmlCodeModel.Proofs.Grammar.Loop

/-! The steps of the grammar with the reason for each. An error is reported at the next token, or at a target that
cannot be assigned to, and then the operator behind the target is taken at once. A node for an enumeration is made
only of members that the tokens write. What holds of all sources is then an induction over these steps. -/
namespace QmlCodeModel

/-- A fault that is found at the next token. -/
def GrammarFault.isHere : GrammarFault → Bool
  | .lexical _ | .invalidAssignmentTarget => false
  | _ => true

/-- The tokens after the name of a member write its value as a number, or as one with a minus. -/
inductive WritesValue : List Token → Bool → Token → Prop
  | plain {equals number : Token} {later : List Token} (h : equals.isPunct "=") (hnumber : number.kind = .number) :
    WritesValue (equals :: number :: later) false number
  | negative {equals minus number : Token} {later : List Token} (h : equals.isPunct "=") (hminus : minus.isPunct "-")
    (hnumber : number.kind = .number) : WritesValue (equals :: minus :: number :: later) true number

/-- What a member of an enumeration owes to the tokens after its name. -/
structure EnumMember.Follows (m : EnumMember) (later : List Token) : Prop where
  some {negative : Bool} {number : Token} (h : WritesValue later negative number) :
    m.value = (Double.ofDecimalText? number.text.toList).map fun v => if negative then v.neg else v
  none (h : ∀ negative number, ¬WritesValue later negative number) : m.value = none

/-- A member of an enumeration as these tokens write it somewhere. -/
def EnumMember.Attested (tokens : List Token) (m : EnumMember) : Prop :=
  ∃ name later, (name :: later) <:+ tokens ∧ m.name = Grammar.identOf name ∧ m.Follows later

/-- All members of an enumeration are written in the tokens. -/
def Kind.Attested (tokens : List Token) : Kind Node → Prop
  | .enumDeclaration _ members => ∀ m ∈ members, m.Attested tokens
  | _ => True

namespace Grammar

/-- The state at another depth and in other surroundings. -/
def State.inContextAt (s : State) (depth : Nat) (allowIn async generator : Bool) : State :=
  { s.inContext allowIn async generator with depth }

/-- The steps that the grammar can take from one state to another over these tokens. -/
inductive Goes (tokens : List Token) : State → State → Prop
  | nothing (s : State) : Goes tokens s s
  | append {s t u : State} (h : Goes tokens s t) (h' : Goes tokens t u) : Goes tokens s u
  | token (s : State) : Goes tokens s s.advance
  | complaint (s : State) (fault : GrammarFault) (here : fault.isHere) : Goes tokens s (s.report s.front fault)
  /-- A target that cannot be assigned to, and the operator behind it. -/
  | target (s : State) (offset : Nat) (operator : s.rest ≠ []) :
    Goes tokens s (s.report offset .invalidAssignmentTarget).advance
  | directive (s : State) (d : Directive) : Goes tokens s { s with directives := s.directives.push d }
  | skip (s : State) : Goes tokens s { s with rest := [], taken := s.taken + s.rest.length }
  | make (s : State) (span : Span) (kind : Kind Node) (attested : kind.Attested tokens) :
    Goes tokens s (s.make span kind).2
  /-- Steps in other surroundings, or at another depth. -/
  | inside {s t : State} (depth : Nat) (allowIn async generator : Bool)
    (h : Goes tokens (s.inContextAt depth allowIn async generator) t) :
    Goes tokens s (t.inContextAt s.depth s.allowIn s.inAsync s.inGenerator)

/-- The steps go forward and leave the surroundings as they were. -/
lemma Goes.follows {tokens : List Token} {s t : State} (h : Goes tokens s t) : s.Follows t := by
  induction h with
  | append _ _ ih ih' => exact ih.trans ih'
  | token s => exact s.follows_advance
  | complaint s fault _ => exact s.follows_report s.front fault
  | target s offset _ => exact (s.follows_report offset _).trans (State.follows_advance _)
  | skip s => exact s.follows_skip
  | inside _ _ _ _ _ ih => exact ⟨ih.rest,ih.eof,rfl,rfl,rfl,rfl,ih.taken,ih.order⟩
  | _ => exact ⟨List.suffix_rfl,rfl,rfl,rfl,rfl,rfl,rfl,fun h => ⟨h,Nat.le_refl _,Nat.le_refl _⟩⟩

/-- The tokens to come are among these, and then the source ends. -/
structure State.Upon (tokens : List Token) (s : State) : Prop where
  rest : s.rest <:+ tokens
  eof : s.eof.kind = .eof

variable {tokens : List Token} {s t : State}

lemma State.Upon.advance (hs : s.Upon tokens) : s.advance.Upon tokens :=
  ⟨(s.follows_advance.rest).trans hs.rest,by rw [s.follows_advance.eof]; exact hs.eof⟩

lemma Goes.upon (h : Goes tokens s t) (hs : s.Upon tokens) : t.Upon tokens := by
  have hreport (s : State) (offset : Nat) (fault : GrammarFault) (hs : s.Upon tokens) :
      (s.report offset fault).Upon tokens :=
    ⟨(s.follows_report offset fault).rest.trans hs.rest,by rw [(s.follows_report offset fault).eof]; exact hs.eof⟩
  induction h with
  | append _ _ ih ih' => exact ih' (ih hs)
  | token s => exact hs.advance
  | complaint s fault _ => exact hreport s s.front fault hs
  | target s offset _ => exact (hreport s offset _ hs).advance
  | skip s => exact ⟨List.nil_suffix,hs.eof⟩
  | inside _ _ _ _ _ ih =>
    obtain ⟨hrest,heof⟩ := ih ⟨hs.rest,hs.eof⟩
    exact ⟨hrest,heof⟩
  | _ => exact ⟨hs.rest,hs.eof⟩

/-- A token that is not the end is the first of those to come. -/
lemma State.Upon.rest_eq (hs : s.Upon tokens) (h : s.peek.kind ≠ .eof) : s.rest = s.peek :: s.advance.rest := by
  obtain ⟨t,rest,hrest⟩ := List.exists_cons_of_ne_nil (State.rest_ne_nil hs.eof h)
  simp [State.peek,State.advance,hrest]

section

variable {α β : Type}

/-- A part goes by steps of the grammar, and its answer has a property. -/
def Yields (tokens : List Token) (p : Parser α) (post : α → Prop) : Prop :=
  ∀ s, s.Upon tokens → ∀ a t, p s = .ok (a, t) → Goes tokens s t ∧ post a

/-- A part goes by steps of the grammar. -/
def Moves (tokens : List Token) (p : Parser α) : Prop := Yields tokens p fun _ => True

variable {p q : Parser α} {k : α → Parser β} {post post' : α → Prop} {post'' : β → Prop}

lemma Yields.mono (h : Yields tokens p post) (hpost : ∀ a, post a → post' a) : Yields tokens p post' :=
  fun s hs a t ht => ⟨(h s hs a t ht).1,hpost a (h s hs a t ht).2⟩

lemma Yields.moves (h : Yields tokens p post) : Moves tokens p := h.mono fun _ _ => trivial

lemma Yields.bind (h : Yields tokens p post) (hk : ∀ a, post a → Yields tokens (k a) post'') :
    Yields tokens (p >>= k) post'' := by
  intro s hs b u hu
  obtain ⟨a,t,ht,hu⟩ := bind_eq_ok hu
  obtain ⟨hgoes,ha⟩ := h s hs a t ht
  obtain ⟨hgoes',hb⟩ := hk a ha t (hgoes.upon hs) b u hu
  exact ⟨hgoes.append hgoes',hb⟩

lemma Moves.bind (h : Moves tokens p) (hk : ∀ a, Yields tokens (k a) post'') : Yields tokens (p >>= k) post'' :=
  Yields.bind h fun a _ => hk a

lemma yields_pure {a : α} (h : post a) : Yields tokens (pure a) post := by
  rintro s _ _ _ ⟨⟩
  exact ⟨.nothing s,h⟩

lemma moves_pure (a : α) : Moves tokens (pure a) := yields_pure trivial

lemma yields_ite {c : Prop} [Decidable c] (hp : c → Yields tokens p post) (hq : ¬c → Yields tokens q post) :
    Yields tokens (if c then p else q) post := by
  split
  · exact hp ‹_›
  · exact hq ‹_›

lemma moves_ite {c : Prop} [Decidable c] (hp : Moves tokens p) (hq : Moves tokens q) :
    Moves tokens (if c then p else q) := yields_ite (fun _ => hp) fun _ => hq

lemma Moves.map {f : α → β} (h : Moves tokens p) : Moves tokens (f <$> p) := by
  rw [← bind_pure_comp]
  exact h.bind fun a => moves_pure (f a)

/-- A part that takes one step. -/
lemma moves_step (h : ∀ s, ∃ a t, p s = .ok (a, t) ∧ Goes tokens s t) : Moves tokens p := by
  intro s _ a t ht
  obtain ⟨b,u,hu,hgoes⟩ := h s
  rw [hu] at ht
  cases ht
  exact ⟨hgoes,trivial⟩

/-- A part that looks at the state only. -/
lemma moves_look (h : ∀ s, ∃ a, p s = .ok (a, s)) : Moves tokens p :=
  moves_step fun s => (h s).imp fun _ ha => ⟨s,ha,.nothing s⟩

/-! Single steps. -/

lemma moves_peek : Moves tokens peek := moves_look fun s => ⟨s.peek,rfl⟩
lemma moves_ahead (n : Nat) : Moves tokens (ahead n) := moves_look fun s => ⟨s.ahead n,rfl⟩
lemma moves_upcoming : Moves tokens upcoming := moves_look fun s => ⟨s.rest,rfl⟩
lemma moves_start : Moves tokens start := moves_look fun s => ⟨s.front,rfl⟩
lemma moves_taken : Moves tokens taken := moves_look fun s => ⟨s.taken,rfl⟩
lemma moves_get : Moves tokens (get : Parser State) := moves_look fun s => ⟨s,rfl⟩
lemma moves_place (offset : Nat) : Moves tokens (place offset) := moves_look fun s => ⟨s.lines.positionAt offset,rfl⟩
lemma moves_atPunct (text : String) : Moves tokens (atPunct text) := moves_look fun s => ⟨s.peek.isPunct text,rfl⟩
lemma moves_atName (text : String) : Moves tokens (atName text) := moves_look fun s => ⟨s.peek.isName text,rfl⟩
lemma moves_atEnd : Moves tokens atEnd := moves_look fun s => ⟨s.peek.kind == .eof,rfl⟩
lemma moves_bump : Moves tokens bump := moves_step fun s => ⟨s.peek,s.advance,rfl,.token s⟩
lemma moves_advance : Moves tokens (discard bump) := moves_bump.map
lemma moves_announce (d : Directive) : Moves tokens (announce d) := moves_step fun s => ⟨(),_,rfl,.directive s d⟩
lemma moves_skipRest : Moves tokens skipRest := moves_step fun s => ⟨(),_,rfl,.skip s⟩

lemma moves_reportHere {fault : GrammarFault} (here : fault.isHere) : Moves tokens (reportHere fault) :=
  moves_step fun s => ⟨(),_,rfl,.complaint s fault here⟩

lemma moves_make {span : Span} {kind : Kind Node} (h : kind.Attested tokens) :
    Moves tokens (make span kind) :=
  moves_step fun s => ⟨_,_,rfl,.make s span kind h⟩

lemma moves_finish {kind : Kind Node} {offset : Nat} (h : kind.Attested tokens) :
    Moves tokens (finish kind offset) :=
  moves_step fun s => ⟨_,_,rfl,.make s (s.spanFrom offset) kind h⟩

lemma moves_errorNode : Moves tokens errorNode := moves_step fun s => ⟨_,_,rfl,.make s _ .error trivial⟩

lemma moves_reportIf {fault : GrammarFault} (wrong : Bool) (here : fault.isHere) :
    Moves tokens (reportIf wrong fault) := moves_ite (moves_reportHere here) (moves_pure ())

lemma moves_skipIf (asked : Bool) : Moves tokens (skipIf asked) := moves_ite moves_advance (moves_pure ())

lemma moves_eat (test : Token → Bool) : Moves tokens (eat test) :=
  moves_peek.bind fun _ => moves_ite (moves_advance.bind fun _ => moves_pure true) (moves_pure false)

lemma moves_eatPunct (text : String) : Moves tokens (eatPunct text) := moves_eat _
lemma moves_eatName (text : String) : Moves tokens (eatName text) := moves_eat _

lemma moves_expect (test : Token → Bool) (text : String) : Moves tokens (expect test text) :=
  (moves_eat test).bind fun _ => moves_ite (moves_pure true) <|
    (moves_reportHere (show (GrammarFault.expected text).isHere from rfl)).bind fun _ => moves_pure false

lemma moves_expectPunct (text : String) : Moves tokens (expectPunct text) := moves_expect _ text
lemma moves_punct (text : String) : Moves tokens (discard (expectPunct text)) := (moves_expectPunct text).map
lemma moves_word (text : String) : Moves tokens (discard (expectName text)) := (moves_expect _ text).map

lemma moves_endStatement : Moves tokens endStatement :=
  (moves_eatPunct ";").bind fun _ => moves_ite (moves_pure ()) <| moves_peek.bind fun _ =>
    moves_ite (moves_pure ()) (moves_reportHere rfl)

lemma moves_optionally {present : Parser Bool} (h : Moves tokens present) (hp : Moves tokens p) :
    Moves tokens (optionally present p) :=
  h.bind fun _ => moves_ite hp.map (moves_pure none)

lemma moves_finishStatement {kind : Kind Node} {offset : Nat} (h : kind.Attested tokens) :
    Moves tokens (finishStatement kind offset) :=
  moves_get.bind fun _ => moves_endStatement.bind fun _ => moves_make h

/-- A part goes as before in other surroundings and at another depth, if these are left again behind it. -/
lemma Moves.inside {s t u : State} {a : α} {depth : Nat} {allowIn async generator : Bool} (h : Moves tokens p)
    (hs : s.Upon tokens) (ht : p (s.inContextAt depth allowIn async generator) = .ok (a, t))
    (hu : (s.inContextAt depth allowIn async generator).Follows t →
      u = t.inContextAt s.depth s.allowIn s.inAsync s.inGenerator) : Goes tokens s u := by
  have hupon : (s.inContextAt depth allowIn async generator).Upon tokens := ⟨hs.rest,hs.eof⟩
  obtain ⟨hgoes,-⟩ := h _ hupon a t ht
  rw [hu hgoes.follows]
  exact .inside depth allowIn async generator hgoes

lemma moves_withIn (allowed : Bool) (hp : Moves tokens p) : Moves tokens (withIn allowed p) := by
  intro s hs a u hu
  change (p >>= fun a => do
    modify fun t => { t with allowIn := s.allowIn }
    pure a) (s.inContextAt s.depth allowed s.inAsync s.inGenerator) = _ at hu
  obtain ⟨a,t,ht,⟨⟩⟩ := bind_eq_ok hu
  refine ⟨hp.inside hs ht fun hfollows => ?_,trivial⟩
  obtain ⟨-,-,hdepth,-,hasync,hgenerator,-⟩ := hfollows
  simp only [State.inContextAt,State.inContext] at hdepth hasync hgenerator ⊢
  rw [← hdepth,← hasync,← hgenerator]

lemma moves_inFunction (async generator : Bool) (hp : Moves tokens p) : Moves tokens (inFunction async generator p) := by
  intro s hs a u hu
  change (p >>= fun a => do
    modify fun t => { t with inAsync := s.inAsync, inGenerator := s.inGenerator }
    pure a) (s.inContextAt s.depth s.allowIn async generator) = _ at hu
  obtain ⟨a,t,ht,⟨⟩⟩ := bind_eq_ok hu
  refine ⟨hp.inside hs ht fun hfollows => ?_,trivial⟩
  obtain ⟨-,-,hdepth,hallowIn,-⟩ := hfollows
  simp only [State.inContextAt,State.inContext] at hdepth hallowIn ⊢
  rw [← hdepth,← hallowIn]

lemma moves_identifier : Moves tokens identifier :=
  moves_peek.bind fun _ => moves_ite (moves_bump.bind fun _ => moves_pure _) <|
    (moves_reportHere rfl).bind fun _ => moves_pure none

lemma moves_bindingIdentifier : Moves tokens bindingIdentifier :=
  moves_peek.bind fun _ => moves_ite moves_identifier <| (moves_reportHere rfl).bind fun _ => moves_pure none

lemma moves_nested {go : Reader} {goal : Goal} (h : Moves tokens (go goal)) : Moves tokens (nested go goal) := by
  refine moves_get.bind fun _ => moves_ite ((moves_reportHere rfl).bind fun _ => moves_errorNode) ?_
  intro s hs n u hu
  change (go goal >>= fun n => do
    modify fun t => { t with depth := t.depth - 1 }
    pure n) (s.inContextAt (s.depth + 1) s.allowIn s.inAsync s.inGenerator) = _ at hu
  obtain ⟨n,t,ht,⟨⟩⟩ := bind_eq_ok hu
  refine ⟨h.inside hs ht fun hfollows => ?_,trivial⟩
  obtain ⟨-,-,hdepth,hallowIn,hasync,hgenerator,-⟩ := hfollows
  simp only [State.inContextAt,State.inContext] at hdepth hallowIn hasync hgenerator ⊢
  rw [hdepth,← hallowIn,← hasync,← hgenerator,Nat.add_sub_cancel]

end

/-! Loops, with a property of the single items. -/

section

variable {α : Type} {item : α → Prop} {round : Parser (Round α)} {part : Parser (List α)}

/-- The items of a list have a property. -/
def Each (item : α → Prop) (items : List α) : Prop := ∀ a ∈ items, item a

lemma yields_collectWithin (h : Yields tokens round fun r => Each item r.items) (rounds : Nat) :
    Yields tokens (collectWithin round rounds) (Each item) := by
  induction rounds with
  | zero =>
    intro _ _ _ _ ht
    cases ht
  | succ rounds ih =>
    refine h.bind fun r hr => yields_ite (fun _ => ih.bind fun later hlater => ?_) fun _ => yields_pure hr
    exact yields_pure (List.forall_mem_append.mpr ⟨hr,hlater⟩)

lemma yields_collect (h : Yields tokens round fun r => Each item r.items) : Yields tokens (collect round) (Each item) :=
  moves_upcoming.bind fun _ => yields_collectWithin h _

lemma yields_collectUntil {stops : Token → Bool} (h : Yields tokens round fun r => Each item r.items) :
    Yields tokens (collectUntil stops round) (Each item) :=
  yields_collect <| moves_peek.bind fun _ => yields_ite (fun _ => yields_pure (by simp [Each])) fun _ => h

lemma yields_progressing {β : Type} {p : Parser β} {post : β → Prop} (h : Yields tokens p post) :
    Yields tokens (progressing p) post :=
  moves_taken.bind fun _ => h.bind fun _ ha => moves_taken.bind fun _ => (moves_skipIf _).bind fun _ => yields_pure ha

lemma yields_commaSeparated (close : String) (h : Yields tokens part (Each item)) :
    Yields tokens (commaSeparated close part) (Each item) :=
  yields_collectUntil <| (yields_progressing h).bind fun _ hitems => (moves_eatPunct ",").bind fun _ =>
    yields_pure hitems

lemma Moves.each {β : Type} {p : Parser β} {f : β → List α} (h : Moves tokens p) :
    Yields tokens p fun b => Each (fun _ => True) (f b) := h.mono fun _ _ _ _ => trivial

lemma moves_collect (h : Moves tokens round) : Moves tokens (collect round) := (yields_collect h.each).moves

lemma moves_collectUntil {stops : Token → Bool} (h : Moves tokens round) : Moves tokens (collectUntil stops round) :=
  (yields_collectUntil h.each).moves

lemma moves_commaRound (h : Moves tokens part) : Moves tokens (commaRound part) :=
  (yields_progressing h).bind fun _ _ => (moves_eatPunct ",").bind fun _ => moves_pure _

lemma moves_commaSeparated (close : String) (h : Moves tokens part) : Moves tokens (commaSeparated close part) :=
  moves_collectUntil (moves_commaRound h)

lemma moves_everyRound (h : Moves tokens part) : Moves tokens (everyRound part) :=
  (yields_progressing h).bind fun _ _ => moves_pure _

lemma moves_one {p : Parser α} (h : Moves tokens p) : Moves tokens (one p) := h.bind fun _ => moves_pure _

lemma moves_iterate {step : α → Parser (Option α)} (h : ∀ a, Moves tokens (step a)) (a : α) :
    Moves tokens (iterate step a) := by
  refine moves_upcoming.bind fun upcoming => ?_
  generalize upcoming.length + 1 = rounds
  induction rounds generalizing a with
  | zero =>
    intro _ _ _ _ ht
    cases ht
  | succ rounds ih =>
    refine (h a).bind fun next => ?_
    cases next with
    | none => exact moves_pure a
    | some b => exact ih b

end

end Grammar
end QmlCodeModel
