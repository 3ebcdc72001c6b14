import QmlCodeModel.Proofs.Grammar.Operand

/-! Blocks, binding targets, functions and the members of literals and classes are readings. -/
namespace QmlCodeModel.Grammar

section

variable {m : Nat} {go : Reader} {s : State} {xs : List Node} (hgo : Obeys m go)
include hgo

lemma reading_statementsUntil (stops : Token → Bool) : Reading m (statementsUntil go stops) := by
  have hone := reading_one (reading_statement hgo)
  exact reading_collectUntil (reading_everyRound hone) fun _ hs => everyRound_takes hone hs

lemma reading_block : Reading m (block go) := by
  refine reading_start fun s => (reading_punct "\x7b").resumes_bind fun _ => ?_
  refine (reading_statementsUntil hgo _).resumes_bind fun statements => ?_
  exact (reading_punct "\x7d").resumes_bind fun _ => resumes_finish (by simp [Kind.children]) rfl

lemma answers_block {tokens : List Token} : Answers m tokens (block go) fun n => n.kind.isBlock := by
  refine answers_start fun _ => (reading_punct "\x7b").answers_bind fun _ => ?_
  refine (reading_statementsUntil hgo _).answers_bind fun statements => ?_
  exact (reading_punct "\x7d").answers_bind fun _ => answers_finish fun n hn => by rw [hn]; rfl

/-- A block whose brace comes next starts with it. -/
lemma ends_block (hs : s.Within m) (h : s.peek.isPunct "\x7b") :
    Ends s.rest (block go) s fun n _ => n.Opened := by
  have hadvance := s.follows_advance.within hs
  have hsuffix := s.follows_advance.rest
  unfold block
  rw [ends_start,ends_known (discard_expectPunct_present h)]
  have hstatements := (reading_statementsUntil hgo (·.isPunct "\x7d")).after hadvance (.nothing _)
  refine (hstatements.of_suffix hsuffix).bind fun statements t ht => ?_
  refine (((reading_punct "\x7d").after hadvance ht).of_suffix hsuffix).bind fun _ u hu => ?_
  have hread : Reads s.advance statements u := (ht.append hu).congr (by simp) rfl
  exact fun _ => hread.heads hs.ordered (State.rest_ne_nil hs.eof (kind_ne_eof_of_isPunct _ h))

lemma reading_functionBody (async generator : Bool) : Reading m (functionBody go async generator) :=
  reading_inFunction async generator (reading_withIn true (reading_block hgo))

lemma reading_arrowBody (async : Bool) : Reading m (arrowBody go async) := by
  refine reading_of_resumes fun s => (reading_atPunct "\x7b").resumes_bind fun _ => ?_
  refine resumes_ite (fun _ => ?_) fun _ => ?_
  · exact (reading_functionBody hgo async false).resumes.congr (by simp)
  · exact (reading_inFunction async false (reading_assignment hgo)).resumes.congr (by simp)

lemma reading_bindingTarget : Reading m (bindingTarget go) := by
  refine reading_of_resumes fun s => reading_peek.resumes_bind fun t => ?_
  refine resumes_ite (fun _ => ?_) fun _ => ?_
  · exact (reading_withIn true (reading_primary hgo)).resumes_bind fun literal =>
      resumes_pure (by simp [nodes,BindingTarget.children])
  · refine reading_bindingIdentifier.resumes_bind fun name => resumes_pure ?_
    cases name <;> simp [nodes,BindingTarget.children]

lemma reading_defaultValue : Reading m (defaultValue go) :=
  reading_optionally (reading_eatPunct "=") (reading_assignment hgo)

lemma reading_formalParameter : Reading m (formalParameter go) := by
  refine reading_of_resumes fun s => (reading_eatPunct "...").resumes_bind fun rest => ?_
  refine (reading_bindingTarget hgo).resumes_bind fun target => ?_
  cases target with
  | none => exact resumes_pure rfl
  | some target =>
    refine (reading_defaultValue hgo).resumes_bind fun default => resumes_pure ?_
    simp [nodes,FormalParameter.children]

lemma reading_formalParameters : Reading m (formalParameters go) := by
  refine reading_of_resumes fun s => (reading_expectPunct "(").resumes_bind fun _ => ?_
  refine resumes_ite (fun _ => ?_) fun _ => resumes_pure rfl
  have hparams := reading_commaSeparated ")" (reading_formalParameter hgo)
  refine (reading_withIn true hparams).resumes_bind fun params => ?_
  exact (reading_punct ")").resumes_bind fun _ => resumes_pure (by simp)

omit hgo in
lemma reading_declaredName (required : Bool) (isName : Token → Bool) (missing : GrammarFault) :
    Reading m (declaredName required isName missing) := by
  refine reading_of_resumes fun s => reading_peek.resumes_bind fun t => ?_
  refine resumes_ite (fun _ => reading_bindingIdentifier.resumes.congr (by simp)) fun _ => ?_
  exact (reading_reportIf required missing).resumes_bind fun _ => resumes_pure (by simp)

/-- Parameters whose opening parenthesis comes next. -/
lemma ends_formalParameters (hs : s.Within m) (h : s.peek.isPunct "(") :
    Ends s.rest (formalParameters go) s fun params t => Reads s.advance (nodes params) t := by
  have hparams := reading_commaSeparated ")" (reading_formalParameter hgo)
  have hlist : Resumes m s.advance [] (do
      let params ← withIn true (commaSeparated ")" (formalParameter go))
      discard (expectPunct ")")
      pure params) nodes := by
    refine (reading_withIn true hparams).resumes_bind fun params => ?_
    exact (reading_punct ")").resumes_bind fun _ => resumes_pure (by simp)
  unfold formalParameters
  rw [ends_known (expectPunct_present h)]
  have hadvance := s.follows_advance
  exact ((hlist (hadvance.within hs) _ (.nothing _)).of_suffix hadvance.rest).mono fun _ _ ht => ht.1

/-! The names of functions. -/

section

variable {tokens : List Token}

lemma answers_bindingTarget : Answers m tokens (bindingTarget go) fun target =>
    ∀ t ∈ target, ∀ i ∈ t.idents, i.From tokens := by
  refine reading_peek.answers_bind fun _ => answers_ite (fun _ => ?_) fun _ => ?_
  · refine (reading_withIn true (reading_primary hgo)).answers_bind fun literal => answers_pure ?_
    rintro _ ⟨⟩
    exact nofun
  · refine answers_bindingIdentifier.bind fun name hname => answers_pure ?_
    rintro _ ht i hi
    obtain ⟨j,hj,rfl⟩ := Option.map_eq_some_iff.mp ht
    rw [List.mem_singleton.mp hi]
    exact hname j hj

lemma answers_formalParameter : Answers m tokens (formalParameter go) fun params =>
    ∀ p ∈ params, ∀ i ∈ p.target.idents, i.From tokens := by
  refine (reading_eatPunct "...").answers_bind fun _ => (answers_bindingTarget hgo).bind fun target htarget => ?_
  cases target with
  | none => exact answers_pure nofun
  | some target =>
    refine (reading_defaultValue hgo).answers_bind fun default => answers_pure fun p hp => ?_
    rw [List.mem_singleton.mp hp]
    exact htarget target rfl

lemma answers_formalParameters : Answers m tokens (formalParameters go) fun params =>
    ∀ p ∈ params, ∀ i ∈ p.target.idents, i.From tokens := by
  refine (reading_expectPunct "(").answers_bind fun _ => answers_ite (fun _ => ?_) fun _ => answers_pure nofun
  refine (answers_commaSeparated (answers_formalParameter hgo)).withIn true |>.bind fun params hparams => ?_
  exact (reading_punct ")").answers_bind fun _ => answers_pure hparams

omit hgo in
lemma FunctionParts.from_idents {f : FunctionParts Node} (hname : ∀ i ∈ f.name, i.From tokens)
    (hparams : ∀ p ∈ f.params, ∀ i ∈ p.target.idents, i.From tokens) : ∀ i ∈ f.idents, i.From tokens := by
  intro i hi
  obtain hi | hi := List.mem_append.mp hi
  · exact hname i (Option.mem_toList.mp hi)
  · obtain ⟨p,hp,hi⟩ := List.mem_flatMap.mp hi
    exact hparams p hp i hi

lemma answers_function (nameRequired : Bool) : Answers m tokens (function go nameRequired) fun f =>
    ∀ i ∈ f.idents, i.From tokens := by
  refine (reading_eatName "async").answers_bind fun async => reading_skip.answers_bind fun _ => ?_
  refine (reading_eatPunct "*").answers_bind fun generator => (answers_declaredName _ _ _).bind fun name hname => ?_
  refine (answers_formalParameters hgo).bind fun params hparams => ?_
  refine (reading_functionBody hgo async generator).answers_bind fun body => answers_pure ?_
  exact FunctionParts.from_idents hname hparams

end

/-! Functions, from their first token on. -/

omit hgo in
/-- The layer of a function around what was read behind its first token. -/
lemma Reads.function {t : State} {f : FunctionParts Node} {kind : Kind Node}
    (hkind : kind = .functionDeclaration f ∨ kind = .functionExpression f) (h : Reads s.advance (nodes f) t)
    (hs : s.Ordered) (hne : s.rest ≠ []) (hidents : ∀ i ∈ f.idents, i.From s.rest) :
    Reads s [(t.make (t.spanFrom s.front) kind).1] (t.make (t.spanFrom s.front) kind).2 := by
  have hheads := h.heads hs hne
  have hread : Reads s (nodes f) t := (Reads.token s).append h
  obtain rfl | rfl := hkind
  · exact .layer _ _ hread (.nothing t) rfl trivial (.of_idents hheads hidents rfl)
  · exact .layer _ _ hread (.nothing t) rfl trivial (.of_idents hheads hidents rfl)

lemma ends_function (nameRequired : Bool) (hs : s.Within m) :
    Ends s.rest (function go nameRequired) s fun f t =>
      Reads s.advance (nodes f) t ∧ ∀ i ∈ f.idents, i.From s.rest := by
  refine (answers_function hgo nameRequired).ends hs (fun _ => id) ?_
  have hadvance := s.follows_advance
  have hrest (async : Bool) : Resumes m s.advance [] (do
      let generator ← eatPunct "*"
      let name ← declaredName nameRequired (·.kind == .name) .expectedFunctionName
      let params ← formalParameters go
      let body ← functionBody go async generator
      pure ({ name, params, body, arrow := false, async, generator } : FunctionParts Node)) nodes := by
    refine (reading_eatPunct "*").resumes_bind fun generator => ?_
    refine (reading_declaredName nameRequired _ _).resumes_bind fun name => ?_
    refine (reading_formalParameters hgo).resumes_bind fun params => ?_
    refine (reading_functionBody hgo async generator).resumes_bind fun body => resumes_pure ?_
    simp [nodes,FunctionParts.children]
  -- Either word is the first token: the other one, if there is one, comes behind it.
  unfold function
  refine ends_eat (fun _ => ?_) fun _ => ?_
  · have h := hrest true (hadvance.within hs) s.advance.advance (.token s.advance)
    exact (h.of_suffix hadvance.rest).mono fun _ _ ht => ht.1
  · have h := hrest false (hadvance.within hs) s.advance (.nothing s.advance)
    exact (h.of_suffix hadvance.rest).mono fun _ _ ht => ht.1

lemma ends_functionDeclaration (hs : s.Within m) (hne : s.rest ≠ []) :
    Ends s.rest (functionDeclaration go) s fun n t => Reads s [n] t := by
  unfold functionDeclaration
  rw [ends_start]
  exact (ends_function hgo true hs).bind fun _ _ ht => .function (.inl rfl) ht.1 hs.ordered hne ht.2

lemma ends_functionExpression (hs : s.Within m) (hne : s.rest ≠ []) :
    Ends s.rest (functionExpression go) s fun n t => Reads s [n] t := by
  unfold functionExpression
  rw [ends_start]
  exact (ends_function hgo false hs).bind fun _ _ ht => .function (.inr rfl) ht.1 hs.ordered hne ht.2

omit hgo in
lemma rest_ne_nil_of_arrowHead {head : ArrowHead} (hs : s.Within m)
    (hhead : head = .name ∧ s.peek.isBindable ∨ head = .list ∧ s.peek.isPunct "(") : s.rest ≠ [] := by
  refine State.rest_ne_nil hs.eof ?_
  obtain ⟨-,hname⟩ | ⟨-,hlist⟩ := hhead
  · simp only [Token.isBindable,Bool.and_eq_true,beq_iff_eq] at hname
    simp [hname.1]
  · exact kind_ne_eof_of_isPunct _ hlist

/-- The first token of the parameters comes next. -/
lemma ends_arrowParameters {head : ArrowHead} (hs : s.Within m)
    (hhead : head = .name ∧ s.peek.isBindable ∨ head = .list ∧ s.peek.isPunct "(") :
    Ends s.rest (arrowParameters go head) s fun params t =>
      Reads s.advance (nodes params) t ∧ ∀ p ∈ params, ∀ i ∈ p.target.idents, i.From s.rest := by
  obtain ⟨rfl,hname⟩ | ⟨rfl,hlist⟩ := hhead
  · have hne := rest_ne_nil_of_arrowHead hs (.inl ⟨rfl,hname⟩)
    refine ⟨.nothing s.advance,fun p hp i hi => ?_⟩
    rw [List.mem_singleton.mp hp] at hi
    rw [List.mem_singleton.mp hi]
    exact from_identOf hne fun _ => id
  · exact (answers_formalParameters hgo).ends hs (fun _ => id) (ends_formalParameters hgo hs hlist)

lemma ends_arrowFunction {async : Bool} {head : ArrowHead} (hs : s.Within m)
    (hhead : s.arrowHeadAt (if async then 1 else 0) = some head) :
    Ends s.rest (arrowFunction go async head) s fun n t => Reads s [n] t := by
  have hadvance := s.follows_advance.within hs
  have hsuffix := s.follows_advance.rest
  have hbody {params : List (FormalParameter Node)} {u : State} (hu : Reads s.advance (nodes params) u)
      (hparams : ∀ p ∈ params, ∀ i ∈ p.target.idents, i.From s.rest) (hne : s.rest ≠ []) : Ends s.rest (do
        discard (expectPunct "=>")
        let body ← arrowBody go async
        finish (.functionExpression
          { name := none, params, body, arrow := true, async, generator := false }) s.front) u fun n t =>
            Reads s [n] t := by
    refine (((reading_punct "=>").after hadvance hu).of_suffix hsuffix).bind fun _ v hv => ?_
    have hv := hu.append hv
    refine (((reading_arrowBody hgo async).after hadvance hv).of_suffix hsuffix).bind fun body w hw => ?_
    refine .function (.inr rfl) ((hv.append hw).congr ?_ rfl) hs.ordered hne ?_
    · simp [nodes,FunctionParts.children]
    · exact FunctionParts.from_idents (fun i hi => absurd hi (Option.not_mem_none i)) hparams
  unfold arrowFunction
  rw [ends_start]
  cases async with
  | true =>
    have hhead := s.peek_advance ▸ State.arrowHeadAt_eq_some hhead
    have hne := State.rest_ne_nil_of_advance (rest_ne_nil_of_arrowHead hadvance hhead)
    rw [ends_bind]
    change Ends s.rest (arrowParameters go head >>= _) s.advance _
    refine ((ends_arrowParameters hgo hadvance hhead).of_suffix hsuffix).bind fun params u hu => ?_
    exact hbody ((Reads.token s.advance).append hu.1)
      (fun p hp i hi => (hu.2 p hp i hi).mono hsuffix.subset) hne
  | false =>
    have hhead := State.arrowHeadAt_eq_some hhead
    rw [ends_bind]
    change Ends s.rest (arrowParameters go head >>= _) s _
    refine (ends_arrowParameters hgo hs hhead).bind fun params u hu => ?_
    exact hbody hu.1 hu.2 (rest_ne_nil_of_arrowHead hs hhead)

/-! Members of literals and classes. -/

omit hgo in
lemma reading_propertyWord : Reading m propertyWord := by
  refine reading_of_resumes fun s => reading_peek.resumes_bind fun t => ?_
  refine (reading_ahead 1).resumes_bind fun next => resumes_ite (fun _ => ?_) fun _ => ?_
  · exact reading_skip.resumes_bind fun _ => resumes_pure rfl
  refine resumes_ite (fun _ => ?_) fun _ => resumes_pure rfl
  exact reading_skip.resumes_bind fun _ => resumes_pure rfl

omit hgo in
/-- No word makes a property the value of its own name. -/
lemma answers_propertyModifiers {tokens : List Token} :
    Answers m tokens propertyModifiers fun modifiers => modifiers.kind ≠ .shorthand := by
  have hword : Answers m tokens propertyWord fun modifiers => modifiers.kind ≠ .shorthand := by
    refine reading_peek.answers_bind fun t => (reading_ahead 1).answers_bind fun next => ?_
    refine answers_ite (fun _ => ?_) fun _ => answers_ite (fun _ => ?_) fun _ => answers_pure nofun
    · refine reading_skip.answers_bind fun _ => answers_pure ?_
      dsimp only
      split <;> exact nofun
    · exact reading_skip.answers_bind fun _ => answers_pure nofun
  refine hword.bind fun before hbefore => (reading_eatPunct "*").answers_bind fun _ => ?_
  exact answers_ite (fun _ => answers_pure nofun) fun _ => answers_pure hbefore

omit hgo in
lemma reading_propertyModifiers : Reading m propertyModifiers := by
  refine reading_of_resumes fun s => reading_propertyWord.resumes_bind fun before => ?_
  refine (reading_eatPunct "*").resumes_bind fun _ => ?_
  exact resumes_ite (fun _ => resumes_pure rfl) fun _ => resumes_pure rfl

omit hgo in
lemma key_of_plainName? {key : PropertyKey Node} {name : String} (h : plainName? key = some name) :
    key = .name name := by
  unfold plainName? at h
  split at h
  · split at h <;> simp_all
  · cases h

/-- A key that is a plain name is the token that comes next. -/
lemma ends_propertyKey (hs : s.Within m) : Ends s.rest (propertyKey go) s fun key t =>
    Reads s (nodes key) t ∧
      ∀ name, plainName? key = some name → name = s.peek.text ∧ t = s.advance ∧ s.rest ≠ [] := by
  unfold propertyKey
  rw [ends_peek]
  cases h : s.peek.kind
  case name =>
    refine ⟨.token s,fun name hname => ?_⟩
    cases key_of_plainName? hname
    exact ⟨rfl,rfl,State.rest_ne_nil hs.eof (by simp [h])⟩
  case string => exact ⟨.token s,nofun⟩
  case number => exact ⟨.token s,nofun⟩
  all_goals
    change Ends s.rest (if _ then _ else _) s _
    split
    · have hadvance := s.follows_advance
      have hkey := reading_withIn true (reading_assignment hgo) s.advance (hadvance.within hs)
      rw [ends_skip]
      refine (hkey.of_suffix hadvance.rest).bind fun key t ht => ?_
      have ht := (Reads.token s).append ht
      refine ((reading_punct "]").after hs ht).bind fun _ u hu => ⟨?_,nofun⟩
      exact (ht.append hu).congr (by simp [nodes,PropertyKey.children]) rfl
    · refine ⟨.complaint s s.front .expectedPropertyName,fun name hname => ?_⟩
      cases key_of_plainName? hname
      cases hname

lemma ends_method (async generator : Bool) (hs : s.Within m) (h : s.peek.isPunct "(") :
    Ends s.rest (method go async generator) s fun n t => Reads s [n] t := by
  have hadvance := s.follows_advance
  have hparams := (answers_formalParameters hgo).ends hs (fun _ => id) (ends_formalParameters hgo hs h)
  unfold method
  rw [ends_start]
  refine hparams.bind fun params t ht => ?_
  have hbody := (reading_functionBody hgo async generator).after (hadvance.within hs) ht.1
  refine (hbody.of_suffix hadvance.rest).bind fun body u hu => ?_
  refine .function (.inr rfl) ((ht.1.append hu).congr ?_ rfl) hs.ordered ?_ ?_
  · simp [nodes,FunctionParts.children]
  · exact State.rest_ne_nil hs.eof (kind_ne_eof_of_isPunct _ h)
  · exact FunctionParts.from_idents (fun i hi => absurd hi (Option.not_mem_none i)) ht.2

lemma ends_methodProperty {t : State} {key : PropertyKey Node} {modifiers : PropertyModifiers}
    (isStatic : Bool) (hkind : modifiers.kind ≠ .shorthand) (hs : s.Within m) (ht : Reads s (nodes key) t)
    (h : t.peek.isPunct "(") :
    Ends s.rest (methodProperty go key modifiers isStatic s.front) t fun n u =>
      Reads s [n] u ∧ u.rest <:+ t.rest := by
  have hmethod := ends_method hgo modifiers.async modifiers.generator (ht.follows.within hs) h
  refine (hmethod.of_suffix ht.follows.rest).bind fun method u hu => ?_
  have hfinish : Resumes m s (nodes key ++ [method]) (finish (.property key (some method)
      (if modifiers.kind == .init then .method else modifiers.kind) isStatic) s.front) nodes := by
    refine resumes_finish (by simp [Kind.children,nodes]) (bne_iff_ne.mpr ?_)
    split
    · decide
    · exact hkind
  exact (hfinish hs u (ht.append hu)).mono fun _ _ hv => ⟨hv.1,hv.2.trans hu.follows.rest⟩

lemma resumes_fieldProperty (key : PropertyKey Node) (isStatic : Bool) :
    Resumes m s (nodes key) (fieldProperty go key isStatic s.front) nodes := by
  have hvalue := reading_withIn true (reading_assignment hgo)
  refine (reading_optionally (reading_eatPunct "=") hvalue).resumes_bind fun value => ?_
  refine reading_endStatement.resumes_bind fun _ => resumes_finish ?_ rfl
  simp [Kind.children,nodes]

/-- The value of a name alone, which has been taken: the name, or behind it another token and a default. -/
lemma ends_shorthandValue (hs : s.Within m) (hne : s.rest ≠ []) :
    Ends s.rest (shorthandValue go s.peek.text s.front) s.advance fun n t => Reads s [n] t ∧
      t.rest <:+ s.advance.rest ∧ ((∃ text, n.kind = .identifier text) ∨ s.advance.front < t.previousStop) := by
  let ident := s.advance.make (s.advance.spanFrom s.front) (.identifier s.peek.text)
  have hident : Reads s [ident.1] ident.2 := .identifier hs.ordered hne
  have hwithin := hident.follows.within hs
  unfold shorthandValue
  rw [ends_bind]
  change Ends s.rest (eatPunct "=" >>= _) ident.2 _
  refine ends_eat (fun h => ?_) fun _ => ⟨hident,List.suffix_rfl,.inl ⟨_,rfl⟩⟩
  have hnext := State.rest_ne_nil hwithin.eof (kind_ne_eof_of_isPunct _ h)
  have htaken := State.front_lt_advance hwithin.ordered hnext
  have hequals := hident.append (.token ident.2)
  refine ((reading_assignment hgo).after hs hequals).bind fun default t ht => ?_
  have hread : Reads s (Kind.assign "=" ident.1 default).children t := hequals.append ht
  have hlater := ((Reads.token ident.2).append ht).follows
  refine ⟨.layer (.assign "=" ident.1 default) _ hread (.nothing t) rfl trivial (Kind.formed_of_isPlain rfl),
    hlater.rest,.inr ?_⟩
  exact Nat.lt_of_lt_of_le htaken (ht.follows.order (ident.2.follows_advance.order hwithin.ordered).1).2.1

/-- A member of a literal after its key. A name alone is the token at which the key starts. -/
lemma ends_literalProperty {t u : State} {key : PropertyKey Node} {modifiers : PropertyModifiers}
    (isStatic : Bool) (hkind : modifiers.kind ≠ .shorthand) (hs : s.Within m) (ht : Reads s [] t)
    (hu : Reads t (nodes key) u)
    (hname : ∀ name, plainName? key = some name → name = t.peek.text ∧ u = t.advance ∧ t.rest ≠ []) :
    Ends s.rest (literalProperty go key t.front modifiers isStatic s.front) u fun n v =>
      Reads s [n] v ∧ v.rest <:+ u.rest := by
  have hboth := ht.append hu
  unfold literalProperty
  refine ends_eat (fun _ => ?_) fun _ => ?_
  · have h : Resumes m s (nodes key) (do
        let value ← assignment go
        finish (.property key (some value) .init false) s.front) nodes :=
      (reading_assignment hgo).resumes_bind fun value =>
        resumes_finish (by simp [Kind.children,nodes]) rfl
    have hcolon : Reads s (nodes key) u.advance := (hboth.append (.token u)).congr (by simp) rfl
    exact (h hs u.advance hcolon).mono fun _ _ hv => ⟨hv.1,hv.2.trans u.follows_advance.rest⟩
  cases hplain : plainName? key with
  | some name =>
    obtain ⟨rfl,rfl,hne⟩ := hname name hplain
    have hwithin := ht.follows.within hs
    refine ((ends_shorthandValue hgo hwithin hne).of_suffix ht.follows.rest).bind fun value w hw => ?_
    obtain ⟨hvalue,hsuffix,hdefault⟩ := hw
    refine ⟨.layer _ _ (ht.append hvalue) (.nothing w) rfl trivial
      ⟨trivial,List.forall_mem_nil _,by rintro _ ⟨⟩,?_⟩,hsuffix⟩
    rintro _ _ _ ⟨⟩
    refine hdefault.imp_right fun hlt => ⟨t.peek,ht.follows.rest.subset (State.peek_mem hne),rfl,?_,?_⟩
    · exact (ht.follows.order hs.ordered).2.2
    · have hfront := (t.follows_advance.order hwithin.ordered).1.previousStop_le_front
      rw [State.previousStop_advance hne] at hfront
      change t.peek.span.stop < max w.previousStop s.front
      omega
  | none =>
    have h : Resumes m s (nodes key) (do
        reportHere (.expected ":")
        finish (.property key none modifiers.kind isStatic) s.front) nodes :=
      (reading_reportHere _).resumes_bind fun _ =>
        resumes_finish (by simp [Kind.children,nodes]) (bne_iff_ne.mpr hkind)
    exact h hs u hboth

lemma resumes_namedProperty (inClass isStatic : Bool) :
    Resumes m s [] (namedProperty go inClass isStatic s.front) nodes := by
  refine answers_propertyModifiers.resumes_bind reading_propertyModifiers fun modifiers hkind => ?_
  intro hs t ht
  rw [ends_start,ends_bind]
  have hkey := ends_propertyKey hgo (ht.follows.within hs)
  refine (hkey.of_suffix ht.follows.rest).mono fun key u hu => ?_
  obtain ⟨hu,hname⟩ := hu
  suffices h : Ends s.rest _ u fun n v => Reads s [n] v ∧ v.rest <:+ u.rest from
    h.mono fun _ _ hv => ⟨hv.1,hv.2.trans hu.follows.rest⟩
  change Ends s.rest (if u.peek.isPunct "(" then _ else if inClass then _ else _) u _
  split
  · exact ends_methodProperty hgo isStatic hkind hs (ht.append hu) ‹_›
  split
  · exact resumes_fieldProperty hgo key isStatic hs u (ht.append hu)
  · exact ends_literalProperty hgo isStatic hkind hs (ht.congr (by simp) rfl) hu hname

lemma reading_objectProperty : Reading m (objectProperty go) := by
  refine reading_start fun s => (reading_eatPunct "...").resumes_bind fun _ => ?_
  refine resumes_ite (fun _ => ?_) fun _ => ?_
  · refine (reading_assignment hgo).resumes_bind fun argument => resumes_finish ?_ rfl
    simp [Kind.children,PropertyKey.children]
  · simpa using resumes_namedProperty hgo false false

lemma reading_classElement : Reading m (classElement go) := by
  refine reading_start fun s => (reading_ahead 1).resumes_bind fun next => ?_
  refine reading_peek.resumes_bind fun t => (reading_skipIf _).resumes_bind fun _ => ?_
  simpa using resumes_namedProperty hgo true _

lemma reading_classRound : Reading m (classRound go) := by
  refine reading_of_resumes fun s => (reading_eatPunct ";").resumes_bind fun _ => ?_
  refine resumes_ite (fun _ => resumes_pure rfl) fun _ => ?_
  exact (reading_everyRound (reading_one (reading_classElement hgo))).resumes.congr (by simp)

lemma classRound_takes (hs : s.Within m) (hrest : s.rest ≠ []) :
    Ends s.rest (classRound go) s (Advance s) := by
  refine advance_eat hs kind_ne_eof_of_isPunct (resumes_pure rfl) ?_
  exact everyRound_takes (reading_one (reading_classElement hgo)) hs hrest

lemma reading_classElements : Reading m (classElements go) :=
  reading_collectUntil (reading_classRound hgo) fun _ hs hrest => classRound_takes hgo hs hrest

lemma reading_classParts (nameRequired : Bool) : Reading m (classParts go nameRequired) := by
  refine reading_of_resumes fun s => reading_skip.resumes_bind fun _ => ?_
  refine (reading_declaredName nameRequired _ _).resumes_bind fun name => ?_
  refine (reading_optionally (reading_eatName "extends") (reading_operand hgo)).resumes_bind
    fun heritage => ?_
  refine (reading_punct "\x7b").resumes_bind fun _ => ?_
  refine (reading_classElements hgo).resumes_bind fun elements => ?_
  refine (reading_punct "\x7d").resumes_bind fun _ => resumes_pure ?_
  simp [nodes,ClassParts.children]

lemma answers_classParts {tokens : List Token} (nameRequired : Bool) :
    Answers m tokens (classParts go nameRequired) fun c => ∀ i ∈ c.name, i.From tokens := by
  refine reading_skip.answers_bind fun _ => (answers_declaredName _ _ _).bind fun name hname => ?_
  refine (reading_optionally (reading_eatName "extends") (reading_operand hgo)).answers_bind fun heritage => ?_
  refine (reading_punct "\x7b").answers_bind fun _ => (reading_classElements hgo).answers_bind fun elements => ?_
  exact (reading_punct "\x7d").answers_bind fun _ => answers_pure hname

end

end QmlCodeModel.Grammar
