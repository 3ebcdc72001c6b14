import QmlCodeModel.Proofs.Grammar.Reading

/-! The single steps of the grammar are readings: looking at tokens, taking them, reporting, and reading
in other surroundings or one level deeper. -/
namespace QmlCodeModel.Grammar

variable {α : Type} {m : Nat} {s : State} {xs : List Node}

lemma reading_peek : Reading m peek := reading_look fun s => ⟨s.peek,rfl⟩
lemma reading_ahead (n : Nat) : Reading m (ahead n) := reading_look fun s => ⟨s.ahead n,rfl⟩
lemma reading_get : Reading m (get : Parser State) := reading_look fun s => ⟨s,rfl⟩
lemma reading_atPunct (text : String) : Reading m (atPunct text) :=
  reading_look fun s => ⟨s.peek.isPunct text,rfl⟩
lemma reading_atName (text : String) : Reading m (atName text) :=
  reading_look fun s => ⟨s.peek.isName text,rfl⟩
lemma reading_atEnd : Reading m atEnd := reading_look fun s => ⟨s.peek.kind == .eof,rfl⟩
lemma reading_taken : Reading m taken := reading_look fun s => ⟨s.taken,rfl⟩
lemma reading_place (offset : Nat) : Reading m (place offset) :=
  reading_look fun s => ⟨s.lines.positionAt offset,rfl⟩
lemma reading_bump : Reading m bump := reading_step fun s => ⟨s.peek,s.advance,rfl,.token s⟩
lemma reading_report (offset : Nat) (fault : GrammarFault) : Reading m (report offset fault) :=
  reading_step fun s => ⟨(),s.report offset fault,rfl,.complaint s offset fault⟩
lemma reading_reportHere (fault : GrammarFault) : Reading m (reportHere fault) :=
  reading_step fun s => ⟨(),s.report s.front fault,rfl,.complaint s s.front fault⟩
lemma reading_announce (d : Directive) : Reading m (announce d) :=
  reading_step fun s => ⟨(),_,rfl,.directive s d⟩
lemma reading_skipRest : Reading m skipRest := reading_step fun s => ⟨(),_,rfl,.skip s⟩

lemma reading_errorNode : Reading m errorNode := fun s _ => Reads.missing s

lemma reading_pure [Bears α] {a : α} (h : nodes a = []) : Reading m (pure a) :=
  reading_of_resumes fun _ => resumes_pure h

lemma reading_discard [Bears α] {p : Parser α} (hp : Reading m p) (h : ∀ a : α, nodes a = []) :
    Reading m (discard p) :=
  reading_of_resumes fun _ => resumes_map (hp.resumes.congr fun a => by simp [h])

lemma reading_skip : Reading m (discard bump) := reading_discard reading_bump fun _ => rfl

lemma reading_ite [Bears α] {c : Prop} [Decidable c] {p q : Parser α} (hp : c → Reading m p)
    (hq : ¬c → Reading m q) : Reading m (if c then p else q) := by
  split
  · exact hp ‹_›
  · exact hq ‹_›

lemma reading_reportIf (wrong : Bool) (fault : GrammarFault) : Reading m (reportIf wrong fault) :=
  reading_ite (fun _ => reading_reportHere fault) fun _ => reading_pure rfl

lemma reading_skipIf (asked : Bool) : Reading m (skipIf asked) :=
  reading_ite (fun _ => reading_skip) fun _ => reading_pure rfl

lemma reading_eat (test : Token → Bool) : Reading m (eat test) :=
  reading_of_resumes fun _ => reading_peek.resumes_bind fun _ =>
    resumes_ite (fun _ => reading_skip.resumes_bind fun _ => resumes_pure rfl)
      fun _ => resumes_pure rfl

lemma reading_eatPunct (text : String) : Reading m (eatPunct text) := reading_eat _
lemma reading_eatName (text : String) : Reading m (eatName text) := reading_eat _

lemma reading_expect (test : Token → Bool) (text : String) : Reading m (expect test text) :=
  reading_of_resumes fun _ => (reading_eat test).resumes_bind fun _ =>
    resumes_ite (fun _ => resumes_pure rfl)
      fun _ => (reading_reportHere _).resumes_bind fun _ => resumes_pure rfl

lemma reading_expectPunct (text : String) : Reading m (expectPunct text) := reading_expect _ text
lemma reading_expectName (text : String) : Reading m (expectName text) := reading_expect _ text

/-- Taking a punctuator, whether it is there or not. -/
lemma reading_punct (text : String) : Reading m (discard (expectPunct text)) :=
  reading_discard (reading_expectPunct text) fun _ => rfl

lemma reading_endStatement : Reading m endStatement := by
  refine reading_of_resumes fun s => (reading_eatPunct ";").resumes_bind fun _ => ?_
  refine resumes_ite (fun _ => resumes_pure rfl) fun _ => reading_peek.resumes_bind fun t => ?_
  exact resumes_ite (fun _ => resumes_pure rfl) fun _ => (reading_reportHere _).resumes

lemma reading_optionally [Bears α] {present : Parser Bool} {p : Parser α}
    (h : Reading m present) (hp : Reading m p) : Reading m (optionally present p) := by
  refine reading_of_resumes fun s => h.resumes_bind fun _ => ?_
  refine resumes_ite (fun _ => ?_) fun _ => resumes_pure rfl
  exact resumes_map (hp.resumes.congr fun a => by simp)

lemma reading_identifier : Reading m identifier := by
  refine reading_of_resumes fun s => reading_peek.resumes_bind fun t => ?_
  refine resumes_ite (fun _ => ?_) fun _ => ?_
  · exact reading_bump.resumes_bind fun _ => resumes_pure rfl
  · exact (reading_reportHere _).resumes_bind fun _ => resumes_pure rfl

lemma reading_bindingIdentifier : Reading m bindingIdentifier := by
  refine reading_of_resumes fun s => reading_peek.resumes_bind fun t => ?_
  refine resumes_ite (fun _ => ?_) fun _ => ?_
  · exact reading_identifier.resumes.congr fun a => by simp
  · exact (reading_reportHere _).resumes_bind fun _ => resumes_pure rfl

/-- A layer whose node is made after the semicolon. -/
lemma resumes_finishStatement {kind : Kind Node} (h : kind.children = xs)
    (plain : kind.isPlain) : Resumes m s xs (finishStatement kind s.front) nodes := by
  intro hs t ht
  subst h
  have hend := (reading_endStatement t (ht.follows.within hs)).of_suffix ht.follows.rest
  unfold finishStatement
  rw [ends_bind]
  change Ends s.rest (endStatement >>= fun _ => make (t.spanFrom s.front) kind) t _
  rw [ends_bind]
  refine hend.mono fun _ u hu => ?_
  refine ⟨.layer kind _ ht hu ?_ (Kind.named_of_isPlain plain _) ?_,hu.follows.rest⟩
  · exact Kind.placed_of_isPlain plain _ _
  · exact Kind.formed_of_isPlain plain

lemma reading_withIn [Bears α] {p : Parser α} (allowed : Bool) (hp : Reading m p) :
    Reading m (withIn allowed p) := by
  intro s hs
  have h := hp (s.inContext allowed s.inAsync s.inGenerator) ⟨⟨hs.eof,hs.ordered,hs.texts⟩,hs.budget⟩
  unfold withIn
  rw [ends_get,ends_modify,ends_bind]
  refine h.mono fun a t ht => ?_
  rw [ends_modify,ends_pure]
  have hasync : t.inAsync = s.inAsync := ht.follows.inAsync
  have hgenerator : t.inGenerator = s.inGenerator := ht.follows.inGenerator
  refine (Reads.inside _ _ _ ht).congr rfl ?_
  simp only [State.inContext,hasync,hgenerator]

lemma reading_inFunction [Bears α] {p : Parser α} (async generator : Bool) (hp : Reading m p) :
    Reading m (inFunction async generator p) := by
  intro s hs
  have h := hp (s.inContext s.allowIn async generator) ⟨⟨hs.eof,hs.ordered,hs.texts⟩,hs.budget⟩
  unfold inFunction
  rw [ends_get,ends_modify,ends_bind]
  refine h.mono fun a t ht => ?_
  rw [ends_modify,ends_pure]
  have hallow : t.allowIn = s.allowIn := ht.follows.allowIn
  refine (Reads.inside _ _ _ ht).congr rfl ?_
  simp only [State.inContext,hallow]

/-- A way to read goals that reads each of them where fewer levels than these are left: a template as one
token at least, the members of an object as such, and a block from its brace on. -/
structure Obeys (m : Nat) (go : Reader) : Prop where
  reads (goal : Goal) (s : State) (hs : s.Ready) (hbudget : s.budget < m) :
    Ends s.rest (go goal) s fun n t => Reads s [n] t
  template (s : State) (hs : s.Ready) (hbudget : s.budget < m) (hkind : s.peek.kind = .template) :
    Ends s.rest (go .primary) s fun _ t => t.rest.length < s.rest.length
  body (s : State) (hs : s.Ready) (hbudget : s.budget < m) :
    Ends s.rest (go .initializer) s fun n _ => n.kind.isBody
  opened (s : State) (hs : s.Ready) (hbudget : s.budget < m) :
    Ends s.rest (go .statement) s fun n _ => n.Opened

lemma State.budget_deeper (hs : s.Within m) (h : ¬maxNesting ≤ s.depth) :
    { s with depth := s.depth + 1 }.budget < m := by
  have := hs.budget
  unfold State.budget at *
  simp only
  omega

/-- What holds of an error node, and one level deeper of the goal. -/
lemma ends_deeper {go : Reader} {goal : Goal} {post : Node → Prop} (herror : ∀ n : Node, n.kind = .error → post n)
    (h : ∀ s : State, s.Ready → s.budget < m → Ends s.rest (go goal) s fun n _ => post n) (hs : s.Within m) :
    Ends s.rest (nested go goal) s fun n _ => post n := by
  unfold nested
  rw [ends_get]
  split
  · exact herror _ rfl
  · rename_i hdepth
    have hready : { s with depth := s.depth + 1 }.Ready := ⟨hs.eof,hs.ordered,hs.texts⟩
    rw [ends_modify]
    exact (h _ hready (State.budget_deeper hs hdepth)).bind fun n t h => h

/-- At the deepest level an error node stands for the goal; elsewhere a level is used up. -/
lemma reading_nested {go : Reader} (hgo : Obeys m go) (goal : Goal) : Reading m (nested go goal) := by
  intro s hs
  unfold nested
  rw [ends_get]
  split
  · have h : Resumes m s [] (reportHere .tooDeep >>= fun _ => errorNode) nodes :=
      (reading_reportHere .tooDeep).resumes_bind fun _ => reading_errorNode.resumes
    exact (h hs s (.nothing s)).mono fun _ _ ht => ht.1
  · rename_i hdepth
    have hready : { s with depth := s.depth + 1 }.Ready := ⟨hs.eof,hs.ordered,hs.texts⟩
    have h := hgo.reads goal _ hready (State.budget_deeper hs hdepth)
    rw [ends_modify,ends_bind]
    refine h.mono fun n t ht => ?_
    rw [ends_modify,ends_pure]
    exact Reads.deeper (by omega) ht

end QmlCodeModel.Grammar
