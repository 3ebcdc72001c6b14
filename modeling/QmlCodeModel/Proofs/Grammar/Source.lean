import QmlCodeModel.Proofs.Grammar.Layout
import QmlCodeModel.Proofs.Grammar.Member

/-! Headers and directives are readings, and whole sources are a root around a reading. The recursion of
the goals is closed here: with more levels than its budget, every state reads every goal. -/
namespace QmlCodeModel.Grammar

section

variable {m : Nat} {go : Reader} {s t : State} {xs : List Node}

lemma reading_readGoal (hgo : Obeys m go) (goal : Goal) : Reading m (readGoal go goal) := by
  cases goal with
  | statement => exact reading_readStatement hgo
  | assignment => exact reading_readAssignment hgo
  | unary => exact reading_readUnary hgo
  | newExpression => exact reading_readNew hgo
  | primary => exact reading_readPrimary hgo
  | initializer => exact reading_readInitializer hgo
  | binary above => exact reading_readBinary hgo above

/-- As many levels of goals suffice where fewer can be opened. -/
theorem obeys_readWithin (m : Nat) : Obeys m (readWithin m) := by
  induction m with
  | zero =>
    refine ⟨fun _ _ _ h => ?_,fun _ _ h => ?_,fun _ _ h => ?_,fun _ _ h => ?_⟩
    all_goals exact absurd h (Nat.not_lt_zero _)
  | succ m ih =>
    have within {s : State} (hs : s.Ready) (h : s.budget < m + 1) : s.Within m := ⟨hs,by omega⟩
    refine ⟨fun goal s hs h => ?_,fun s hs h hkind => ?_,fun s hs h => ?_,fun s hs h => ?_⟩
    · exact reading_readGoal ih goal s (within hs h)
    · exact readPrimary_takes_template (readWithin m) (within hs h) hkind
    · exact readInitializer_body ih (within hs h)
    · exact readStatement_opened ih (within hs h)

/-! Headers of documents. -/

lemma reading_importQualifier : Reading m importQualifier :=
  reading_of_resumes fun _ => (reading_eatName "as").resumes_bind fun _ =>
    resumes_ite (fun _ => reading_identifier.resumes.congr (by simp)) fun _ => resumes_pure rfl

lemma answers_importQualifier {tokens : List Token} :
    Answers m tokens importQualifier fun qualifier => ∀ i ∈ qualifier, i.From tokens :=
  (reading_eatName "as").answers_bind fun _ => answers_ite (fun _ => answers_identifier) fun _ =>
    answers_pure nofun

lemma reading_importTarget : Reading m importTarget := by
  refine reading_of_resumes fun s => reading_peek.resumes_bind fun t => ?_
  refine resumes_ite (fun _ => ?_) fun _ => ?_
  · exact reading_bump.resumes_bind fun _ => resumes_pure rfl
  · exact reading_qualifiedName.resumes_bind fun _ => resumes_pure (by simp)

lemma reading_importVersion : Reading m importVersion := by
  refine reading_of_resumes fun s => reading_peek.resumes_bind fun t => ?_
  refine resumes_ite (fun _ => ?_) fun _ => resumes_pure rfl
  exact reading_skip.resumes_bind fun _ => resumes_pure rfl

/-- From here a part reads a node, and takes a token for it. -/
def TakesNode (s : State) (p : Parser Node) : Prop :=
  Ends s.rest p s fun n t => Reads s [n] t ∧ t.rest.length < s.rest.length

lemma importHeader_takes (hs : s.Within m) (h : s.peek.kind ≠ .eof) : TakesNode s importHeader := by
  have htakes : Takes m s [] (do
      let place ← place s.front
      discard bump
      let target ← importTarget
      let version ← importVersion
      let qualifier ← importQualifier
      endStatement
      announce (importDirective target version (qualifier.map Ident.name) place)
      finish (.importing target version qualifier) s.front) nodes := by
    refine takes_look (fun t => ⟨t.lines.positionAt s.front,rfl⟩) fun place => takes_skip ?_
    refine reading_importTarget.resumes_bind fun target => ?_
    refine reading_importVersion.resumes_bind fun version => ?_
    refine answers_importQualifier.resumes_bind reading_importQualifier fun qualifier hqualifier => ?_
    refine reading_endStatement.resumes_bind fun _ => (reading_announce _).resumes_bind fun _ => ?_
    refine resumes_layer (by simp [Kind.children]) (fun _ => .of_idents trivial ?_ rfl) (fun _ => rfl) fun _ =>
      trivial
    exact fun i hi => hqualifier i (Option.mem_toList.mp hi)
  unfold TakesNode importHeader
  rw [ends_start]
  exact (htakes hs s (.nothing s) h).mono fun n t ht => ⟨ht.1,ht.2.2⟩

lemma pragmaHeader_takes (hs : s.Within m) (h : s.peek.kind ≠ .eof) : TakesNode s pragmaHeader := by
  have htakes : Takes m s [] (do
      discard bump
      let name? ← identifier
      endStatement
      finish ((name?.map Kind.pragma).getD .error) s.front) nodes := by
    refine takes_skip (reading_identifier.resumes_bind fun name => ?_)
    refine reading_endStatement.resumes_bind fun _ => ?_
    cases name <;> exact resumes_finish (by simp [Kind.children]) rfl
  unfold TakesNode pragmaHeader
  rw [ends_start]
  exact (htakes hs s (.nothing s) h).mono fun n t ht => ⟨ht.1,ht.2.2⟩

/-- A header takes the word that it starts with. -/
lemma header_takes (hs : s.Within m) : Ends s.rest header s fun r t =>
    Reads s (nodes r) t ∧ Advance s r t := by
  have one {p : Parser Node} (hp : TakesNode s p) :
      Ends s.rest (do return ⟨[← p],true⟩) s fun r t => Reads s (nodes r) t ∧ Advance s r t := by
    rw [ends_bind]
    exact hp.mono fun n t ht => ⟨by simpa using ht.1,fun _ => ht.2⟩
  unfold header
  rw [ends_peek,ends_bind]
  change Ends s.rest (if _ then _ else if _ then _ else _) s _
  split
  · rename_i h
    simp only [Bool.and_eq_true] at h
    exact one (importHeader_takes hs (kind_ne_eof_of_isName _ h.1))
  split
  · rename_i h
    simp only [Bool.and_eq_true] at h
    exact one (pragmaHeader_takes hs (kind_ne_eof_of_isName _ h.1))
  · exact ⟨.nothing s,fun h => absurd h Bool.false_ne_true⟩

lemma answers_header {tokens : List Token} :
    Answers m tokens header fun r => ∀ n ∈ r.items, n.kind.isHeader := by
  have one {p : Parser Node} (hp : Answers m tokens p fun n => n.kind.isHeader) :
      Answers m tokens (do return (⟨[← p],true⟩ : Round Node)) fun r => ∀ n ∈ r.items, n.kind.isHeader :=
    hp.bind fun n hn => answers_pure (by simpa using hn)
  refine reading_peek.answers_bind fun _ => (reading_ahead 1).answers_bind fun _ => ?_
  refine answers_ite (fun _ => one ?_) fun _ => answers_ite (fun _ => one ?_) fun _ => answers_pure nofun
  · refine answers_start fun start => (reading_place start).answers_bind fun _ => reading_skip.answers_bind fun _ => ?_
    refine reading_importTarget.answers_bind fun _ => reading_importVersion.answers_bind fun _ => ?_
    refine reading_importQualifier.answers_bind fun _ => reading_endStatement.answers_bind fun _ => ?_
    exact (reading_announce _).answers_bind fun _ => answers_finish fun n hn => by rw [hn]; rfl
  · refine answers_start fun _ => reading_skip.answers_bind fun _ => reading_identifier.answers_bind fun name => ?_
    refine reading_endStatement.answers_bind fun _ => answers_finish fun n hn => ?_
    cases name <;> rw [hn] <;> rfl

lemma reading_header : Reading m header := fun _ hs => (header_takes hs).mono fun _ _ h => h.1

lemma header_advances : Advances m header := fun _ hs => (header_takes hs).mono fun _ _ h => h.2

/-! Directives of programs. -/

lemma reading_directiveQualifier : Reading m directiveQualifier := by
  refine reading_of_resumes fun s => (reading_eatName "as").resumes_bind fun _ => ?_
  refine resumes_ite (fun _ => ?_) fun _ => ?_
  · exact reading_identifier.resumes_bind fun _ => resumes_pure (by simp)
  · exact (reading_reportHere _).resumes_bind fun _ => resumes_pure rfl

lemma reading_moduleVersion : Reading m moduleVersion := by
  refine reading_of_resumes fun s => reading_peek.resumes_bind fun t => ?_
  refine resumes_ite (fun _ => ?_) fun _ => ?_
  · exact reading_bump.resumes_bind fun _ => resumes_pure rfl
  · exact (reading_reportHere _).resumes_bind fun _ => resumes_pure rfl

lemma reading_directiveAfter (word : Token) (place : LineColumn) :
    Reading m (directiveAfter word place) := by
  refine reading_of_resumes fun s => resumes_ite (fun _ => ?_) fun _ => ?_
  · refine (reading_eatName "library").resumes_bind fun _ => resumes_ite (fun _ => ?_) fun _ => ?_
    · exact (reading_announce _).resumes
    · exact (reading_reportHere _).resumes
  refine reading_peek.resumes_bind fun t => resumes_ite (fun _ => ?_) fun _ => ?_
  · refine reading_bump.resumes_bind fun _ => reading_directiveQualifier.resumes_bind fun _ => ?_
    exact (reading_announce _).resumes.congr (by simp)
  · refine reading_qualifiedName.resumes_bind fun _ => reading_moduleVersion.resumes_bind fun _ => ?_
    refine reading_directiveQualifier.resumes_bind fun _ => ?_
    exact (reading_announce _).resumes.congr (by simp)

lemma takes_directive (offset : Nat) : Takes m s [] (do
    let place ← place offset
    discard bump
    let word ← bump
    directiveAfter word place
    discard (eatPunct ";")
    pure (⟨[()],true⟩ : Round Unit)) nodes := by
  refine takes_look (fun t => ⟨t.lines.positionAt offset,rfl⟩) fun place => takes_skip ?_
  refine reading_bump.resumes_bind fun word => (reading_directiveAfter word place).resumes_bind fun _ => ?_
  refine (reading_discard (reading_eatPunct ";") fun _ => rfl).resumes_bind fun _ => ?_
  exact resumes_pure (by simp)

/-- A directive takes the dot that it starts with. -/
lemma directive_takes (hs : s.Within m) : Ends s.rest directive s fun r t =>
    Reads s (nodes r) t ∧ Advance s r t := by
  unfold directive
  rw [ends_peek,ends_bind]
  change Ends s.rest (if _ then _ else _) s _
  split
  · rename_i h
    simp only [Bool.and_eq_true] at h
    have hdot := kind_ne_eof_of_isPunct _ h.1.1
    exact (takes_directive s.peek.span.start hs s (.nothing s) hdot).mono fun r t ht => ⟨ht.1,fun _ => ht.2.2⟩
  · exact ⟨.nothing s,fun h => absurd h Bool.false_ne_true⟩

lemma reading_directive : Reading m directive := fun _ hs => (directive_takes hs).mono fun _ _ h => h.1

lemma directive_advances : Advances m directive := fun _ hs => (directive_takes hs).mono fun _ _ h => h.2

/-! Roots. -/

lemma reading_refuseRest (fault : GrammarFault) : Reading m (refuseRest fault) := by
  refine reading_of_resumes fun s => reading_atEnd.resumes_bind fun _ => ?_
  refine resumes_ite (fun _ => resumes_pure rfl) fun _ => (reading_reportHere _).resumes_bind fun _ => ?_
  exact reading_skipRest.resumes

lemma reading_rootObject (hgo : Obeys m go) : Reading m (rootObject go) := by
  intro s hs
  unfold rootObject
  rw [ends_upcoming]
  split
  · rename_i h
    refine (ends_objectDefinition hgo hs (kind_of_startsObject h)).bind fun root t ht => ?_
    exact ((reading_refuseRest _).after hs ht).bind fun _ u hu => (ht.append hu).congr (by simp) rfl
  · have h : Reading m (do
        reportHere .expectedRootObject
        skipRest
        pure ([] : List Node)) :=
      reading_of_resumes fun _ => (reading_reportHere _).resumes_bind fun _ =>
        reading_skipRest.resumes_bind fun _ => resumes_pure (by simp)
    exact h s hs

lemma reading_readSingleExpression (hgo : Obeys m go) : Reading m (readSingleExpression go) := by
  have hroot : Reading m (expressionOrError go) :=
    reading_of_resumes fun _ => reading_atEnd.resumes_bind fun _ =>
      resumes_ite (fun _ => (reading_missingPrimary _).resumes.congr (by simp))
        fun _ => (reading_expression hgo).resumes.congr (by simp)
  refine reading_of_resumes fun s => hroot.resumes_bind fun root => ?_
  refine reading_atEnd.resumes_bind fun _ => (reading_reportIf _ _).resumes_bind fun _ => ?_
  exact resumes_pure (by simp)

/-- The root of a source: the layer of a whole document or program around what has been read, or an
expression by itself. -/
inductive Roots (whole : Span) (s : State) : SourceForm → Node → State → Prop
  | document {headers members : List Node} {t : State} (h : Reads s (headers ++ members) t)
    (leading : ∀ n ∈ headers, n.kind.isHeader) :
    Roots whole s .qml (t.make whole (.document headers members)).1
      (t.make whole (.document headers members)).2
  | program {elements : List Node} {t : State} (h : Reads s elements t) :
    Roots whole s .program (t.make whole (.program elements)).1 (t.make whole (.program elements)).2
  | expression {root : Node} {t : State} (h : Reads s [root] t) : Roots whole s .expression root t

theorem ends_readSource (hgo : Obeys m go) (whole : Span) (form : SourceForm) (hs : s.Within m) :
    Ends s.rest (readSource go whole form) s (Roots whole s form) := by
  cases form with
  | qml =>
    have h : Resumes m s [] (do
        let headers ← collect header
        let members ← rootObject go
        pure (headers,members)) nodes := by
      refine (reading_collect reading_header header_advances).resumes_bind fun headers => ?_
      exact (reading_rootObject hgo).resumes_bind fun members => resumes_pure (by simp)
    have h := h hs s (.nothing s)
    rw [ends_bind] at h
    change Ends s.rest (collect header >>= _) s _
    rw [ends_bind]
    refine ((answers_collect answers_header).ends hs (fun _ => id) h).mono fun headers t ht => ?_
    obtain ⟨ht,hheaders⟩ := ht
    rw [ends_bind] at ht ⊢
    exact ht.mono fun members u hu => .document (by simpa [ends_pure] using hu.1) hheaders
  | program =>
    have hdirectives := reading_collect reading_directive directive_advances (m := m)
    have h : Resumes m s [] (do
        discard (collect directive)
        statementsUntil go (·.kind == .eof)) nodes := by
      refine (reading_discard hdirectives fun _ => by simp).resumes_bind fun _ => ?_
      exact (reading_statementsUntil hgo _).resumes.congr (by simp)
    have h := h hs s (.nothing s)
    rw [ends_bind] at h
    change Ends s.rest (discard (collect directive) >>= _) s _
    rw [ends_bind]
    refine h.mono fun _ t ht => ?_
    rw [ends_bind]
    exact ht.mono fun elements u hu => .program (by simpa using hu.1)
  | expression =>
    exact (reading_readSingleExpression hgo s hs).mono fun root t ht => .expression ht

end

section

variable (text : List Char)

/-- The state before the first token of a text. -/
abbrev opening : State := initialState text (tokenize text)

lemma opening_follows : State.Follows {
    rest := (tokenize text).tokens.toList.dropLast
    eof := (tokenize text).tokens.toList.getLastD default
    lines := LineIndex.ofText text } (opening text) := by
  unfold opening initialState
  apply Array.foldl_induction (fun _ s => State.Follows _ s)
  · exact .refl _
  · exact fun i s hs => hs.trans (s.follows_report _ _)

lemma ready_opening : (opening text).Ready ∧ (opening text).eof.span.start = byteWidth text := by
  have h := opening_follows text
  obtain ⟨tokens,eof,htokens,heof,hstart,hspread,htexts⟩ := tokens_tokenize text
  rw [htokens,List.dropLast_concat,List.getLastD_concat] at h
  refine ⟨⟨?_,(h.order hspread).1,fun t ht => htexts t (h.rest.subset ht)⟩,?_⟩
  · rw [h.eof]
    exact heof
  · rw [h.eof]
    exact hstart

lemma opening_within : (opening text).Within (maxNesting + (opening text).rest.length + 1) := by
  refine ⟨(ready_opening text).1,?_⟩
  unfold State.budget
  omega

variable {text}

/-- A source that has been read has a root around what was read. -/
theorem roots_reading {form : SourceForm} {root : Node} {t : State}
    (h : reading form text = .ok (root,t)) : Roots ⟨0, byteWidth text⟩ (opening text) form root t :=
  (ends_readSource (obeys_readWithin _) _ form (opening_within text)).of_ok h

/-- A source is read for ever only from a stalled state, before a token of its own. -/
theorem stalled_reading {form : SourceForm} {e : State} (h : reading form text = .error e) :
    e.Stalled ∧ e.peek ∈ (opening text).rest :=
  (ends_readSource (obeys_readWithin _) ⟨0, byteWidth text⟩ form (opening_within text)).of_error h

/-- The root of a source lies over all that has been read. -/
lemma sound_root {s t : State} {kind : Kind Node} {id last : Nat} (h : Reads s kind.children t)
    (hs : s.Ordered) (hlast : s.eof.span.start = last)
    (placed : kind.Placed 0 last ⟨0, last⟩) : (Node.mk id ⟨0, last⟩ kind).Sound := by
  have hrow := h.row hs
  have hstop : t.previousStop ≤ last := by
    rw [← hlast,← h.follows.eof]
    exact (h.follows.order hs).1.le
  exact .mk 0 last placed (Nat.zero_le _) (fun _ _ => Nat.zero_le _)
    (fun c hc => (hrow.tight c hc).mono hstop) hrow.apart (fun _ => hrow.named) hrow.sound

lemma reading_of_parse? {form : SourceForm} {source : String} {p : Parse}
    (h : parse? form source = some p) : ∃ root t, reading form source.toList = .ok (root, t) ∧
      p.root = root ∧ p.nodes = t.nodes ∧ p.diagnostics = Diagnostic.sort t.diagnostics.toList := by
  cases hreading : reading form source.toList with
  | error e => simp [parse?,hreading,Except.toOption] at h
  | ok result =>
    simp only [parse?,hreading] at h
    cases h
    exact ⟨result.1,result.2,rfl,rfl,rfl,rfl⟩

/-- The tree of a source lies in it as its tokens were read, with errors or without. -/
theorem sound_of_parse? {form : SourceForm} {source : String} {p : Parse}
    (h : parse? form source = some p) : p.root.Sound := by
  obtain ⟨⟨-,hordered,-⟩,hstop⟩ := ready_opening source.toList
  obtain ⟨root,t,hreading,hroot,-⟩ := reading_of_parse? h
  rw [hroot]
  cases roots_reading hreading with
  | document hreads => exact sound_root hreads hordered hstop (by simp [Kind.Placed])
  | program hreads => exact sound_root hreads hordered hstop (by simp [Kind.Placed])
  | expression hreads => exact (hreads.row hordered).sound _ (List.mem_singleton_self _)

end

end QmlCodeModel.Grammar
