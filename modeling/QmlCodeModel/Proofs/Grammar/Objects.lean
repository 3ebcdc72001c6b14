import QmlCodeModel.Proofs.Grammar.Clean.Source
import QmlCodeModel.Proofs.Grammar.Numbering

/-! Where objects stand in what the grammar reads: in braces, in brackets and as first values of
properties, and never in a script. -/
namespace QmlCodeModel.Grammar

section

variable {α β : Type} {m : Nat} {p : Parser α} {s : State} {Q : α → Prop} {R : β → Prop}

/-- An answer of a part, if it has one here, has a property. -/
def Gives (m : Nat) (p : Parser α) (Q : α → Prop) (s : State) : Prop :=
  s.Within m → ∀ a t, p s = .ok (a, t) → t.Within m ∧ Q a

lemma Reading.gives [Bears α] (h : Reading m p) : Gives m p (fun _ => True) s := by
  intro hs a t ht
  exact ⟨((h s hs).of_ok ht).follows.within hs,trivial⟩

lemma Gives.bind {k : α → Parser β} (h : Gives m p Q s) (hk : ∀ a t, Q a → Gives m (k a) R t) :
    Gives m (p >>= k) R s := by
  intro hs b u hu
  obtain ⟨a,t,ht,hu⟩ := bind_eq_ok hu
  obtain ⟨hwithin,ha⟩ := h hs a t ht
  exact hk a t ha hwithin b u hu

lemma Gives.mp {Q' : α → Prop} (h : Gives m p (fun a => Q a → Q' a) s) (h' : Gives m p Q s) :
    Gives m p Q' s := by
  intro hs a t ht
  exact ⟨(h' hs a t ht).1,(h hs a t ht).2 (h' hs a t ht).2⟩

/-- What a part answers does not matter to what follows it. -/
lemma Reading.gives_bind [Bears α] {k : α → Parser β} (h : Reading m p) (hk : ∀ a t, Gives m (k a) R t) :
    Gives m (p >>= k) R s :=
  h.gives.bind fun a t _ => hk a t

lemma gives_pure {a : α} (h : Q a) : Gives m (pure a) Q s := by
  rintro hs b t ⟨⟩
  exact ⟨hs,h⟩

lemma gives_ite {c : Prop} [Decidable c] {q : Parser α} (hp : c → Gives m p Q s)
    (hq : ¬c → Gives m q Q s) : Gives m (if c then p else q) Q s := by
  split
  · exact hp ‹_›
  · exact hq ‹_›

lemma gives_peek {k : Token → Parser β} (h : Gives m (k s.peek) R s) : Gives m (peek >>= k) R s := h

lemma gives_ahead {n : Nat} {k : Token → Parser β} (h : Gives m (k (s.ahead n)) R s) :
    Gives m (ahead n >>= k) R s := h

lemma gives_start {k : Nat → Parser β} (h : Gives m (k s.front) R s) : Gives m (start >>= k) R s := h

lemma gives_upcoming {k : List Token → Parser β} (h : Gives m (k s.rest) R s) :
    Gives m (upcoming >>= k) R s := h

lemma gives_place {offset : Nat} {k : LineColumn → Parser β}
    (h : Gives m (k (s.lines.positionAt offset)) R s) : Gives m (place offset >>= k) R s := h

lemma gives_get {k : State → Parser β} (h : Gives m (k s) R s) : Gives m (get >>= k) R s := h

/-! Nodes. -/

lemma gives_make {span : Span} {kind : Kind Node} {Q : Node → Prop} (h : ∀ n : Node, n.kind = kind → Q n) :
    Gives m (make span kind) Q s := by
  rintro hs n t ⟨⟩
  exact ⟨⟨⟨hs.eof,hs.ordered,hs.texts⟩,hs.budget⟩,h _ rfl⟩

lemma gives_finish {offset : Nat} {kind : Kind Node} {Q : Node → Prop}
    (h : ∀ n : Node, n.kind = kind → Q n) : Gives m (finish kind offset) Q s := by
  rintro hs n t ⟨⟩
  exact ⟨⟨⟨hs.eof,hs.ordered,hs.texts⟩,hs.budget⟩,h _ rfl⟩

/-- A layer without objects that is no script, around nodes without objects. -/
lemma quiet_of_kind {n : Node} {kind : Kind Node} (h : n.kind = kind) (hkind : kind.isQmlObject = false)
    (hscript : kind.isScript = false) (hc : ∀ c ∈ kind.children, c.Quiet) : n.Quiet := by
  subst h
  refine Node.quiet_of_children ?_ (fun h => absurd h (by simp [hscript])) hc
  rwa [Node.isQmlObject_eq,Option.isSome_eq_false_iff,Option.isNone_iff_eq_none] at hkind

lemma isQmlObject_of_isScript {kind : Kind Node} (h : kind.isScript ∨ kind = .error) :
    kind.isQmlObject = false := by
  cases kind <;> simp [Kind.isScript,Kind.isQmlObject] at h ⊢

/-- Nodes of scripts alone. -/
lemma quiet_of_isScript {n : Node} (h : ∀ x ∈ n.walk, x.kind.isScript ∨ x.kind = .error) : n.Quiet := by
  refine ⟨fun x hx => ?_,fun x hx _ c hc => h c (Node.mem_walk_trans hx ?_)⟩
  · have hkind := isQmlObject_of_isScript (h x hx)
    rwa [Node.isQmlObject_eq,Option.isSome_eq_false_iff,Option.isNone_iff_eq_none] at hkind
  · exact Node.mem_walk_of_mem_children hc c.mem_walk_self

/-- Where nothing but nodes of scripts is made, scripts are read. -/
lemma gives_scripts {α : Type} [Bears α] {p : Parser α} {n : Stretch}
    (h : s.Within m → Ends s.rest p s fun a t => Reads s (nodes a) t) (hmade : Leads true {} p n s) :
    Gives m p (fun a => ∀ y ∈ (nodes a).flatMap Node.walk, y.kind.isScript ∨ y.kind = .error) s := by
  intro hs a t ht
  have hread : Reads s (nodes a) t := (h hs).of_ok ht
  obtain ⟨made,hnodes,honly,-⟩ := (hmade s (.refl hs.eof) a t ht).made
  refine ⟨hread.follows.within hs,fun y hy => ?_⟩
  obtain ⟨hle,hstored⟩ := hread.numbered.stored y hy
  have hmem : y ∈ made := by
    rw [← Array.getElem?_toList,hnodes,List.getElem?_append_right hle] at hstored
    exact List.mem_of_getElem? hstored
  exact honly rfl y hmem

/-- Where nothing but nodes of scripts is made, there are no objects. -/
lemma gives_script {p : Parser Node} {n : Stretch}
    (h : s.Within m → Ends s.rest p s fun n t => Reads s [n] t) (hmade : Leads true {} p n s) :
    Gives m p Node.Quiet s := by
  intro hs x t ht
  obtain ⟨hwithin,hscript⟩ := gives_scripts h hmade hs x t ht
  exact ⟨hwithin,quiet_of_isScript (by simpa using hscript)⟩

/-! Loops. -/

lemma gives_collectWithin {round : Parser (Round α)}
    (h : ∀ s, Gives m round (fun r => ∀ x ∈ r.items, Q x) s) (rounds : Nat) :
    Gives m (collectWithin round rounds) (fun l => ∀ x ∈ l, Q x) s := by
  induction rounds generalizing s with
  | zero =>
    intro _ _ _ ht
    cases ht
  | succ rounds ih =>
    apply (h s).bind
    intro r t hr
    apply gives_ite
    · intro _
      apply ih.bind
      intro later u hlater
      apply gives_pure
      intro x hx
      exact (List.mem_append.mp hx).elim (hr x) (hlater x)
    · intro _
      exact gives_pure hr

lemma gives_collect {round : Parser (Round α)}
    (h : ∀ s, Gives m round (fun r => ∀ x ∈ r.items, Q x) s) :
    Gives m (collect round) (fun l => ∀ x ∈ l, Q x) s :=
  gives_upcoming (gives_collectWithin h _)

lemma gives_collectUntil {round : Parser (Round α)} {stops : Token → Bool}
    (h : ∀ s, Gives m round (fun r => ∀ x ∈ r.items, Q x) s) :
    Gives m (collectUntil stops round) (fun l => ∀ x ∈ l, Q x) s := by
  apply gives_collect
  intro s
  apply gives_peek
  apply gives_ite
  · intro _
    exact gives_pure (by simp)
  · intro _
    exact h s

lemma gives_progressing (h : Gives m p Q s) : Gives m (progressing p) Q s := by
  change Gives m (p >>= fun a => taken >>= fun after => skipIf (after == s.taken) >>= fun _ => pure a) Q s
  apply h.bind
  intro a t ha
  change Gives m (skipIf (t.taken == s.taken) >>= fun _ => pure a) Q t
  apply (reading_skipIf _).gives_bind
  intro _ u
  exact gives_pure ha

lemma gives_everyRound {part : Parser (List α)} (h : Gives m part (fun l => ∀ x ∈ l, Q x) s) :
    Gives m (everyRound part) (fun r => ∀ x ∈ r.items, Q x) s := by
  apply (gives_progressing h).bind
  intro items t hitems
  exact gives_pure hitems

lemma gives_commaRound {part : Parser (List α)} (h : Gives m part (fun l => ∀ x ∈ l, Q x) s) :
    Gives m (commaRound part) (fun r => ∀ x ∈ r.items, Q x) s := by
  apply (gives_progressing h).bind
  intro items t hitems
  apply (reading_eatPunct ",").gives_bind
  intro more u
  exact gives_pure hitems

end

/-! Members that hold no object. -/

section

variable {m : Nat} {s : State}

lemma quiet_of_leaf {n : Node} {kind : Kind Node} (h : n.kind = kind) (hkind : kind.isQmlObject = false)
    (hc : kind.children = []) : n.Quiet := by
  subst h
  have hnone : n.children = [] := hc
  refine Node.quiet_of_children ?_ (by simp [hnone]) (by simp [hnone])
  rwa [Node.isQmlObject_eq,Option.isSome_eq_false_iff,Option.isNone_iff_eq_none] at hkind

/-- Members of other kinds are orderly if they hold no object. -/
lemma orderly_of_quiet {n : Node} {kind : Kind Node} (h : n.Quiet) (hn : n.kind = kind)
    (hkind : ∀ m, kind = .publicMember m → m.kind ≠ .property) : n.Orderly :=
  .quiet h fun m hm hproperty => absurd hproperty (hkind m (hn.symm.trans hm))

lemma orderly_of_leaf {n : Node} {kind : Kind Node} (h : n.kind = kind) (hkind : kind.isQmlObject = false)
    (hc : kind.children = []) (hdeclared : ∀ m, kind = .publicMember m → m.kind ≠ .property) : n.Orderly :=
  orderly_of_quiet (quiet_of_leaf h hkind hc) h hdeclared

lemma gives_signalMember : Gives m signalMember Node.Orderly s := by
  apply gives_start
  apply reading_skip.gives_bind
  intro _ t
  apply reading_identifier.gives_bind
  intro name u
  cases name with
  | none => exact gives_finish fun n h => orderly_of_leaf h rfl rfl (by simp)
  | some name =>
    apply reading_signalParameters.gives_bind
    intro parameters v
    apply reading_endStatement.gives_bind
    intro _ w
    exact gives_finish fun n h => orderly_of_leaf h rfl rfl (by simp)

lemma gives_enumDeclaration : Gives m enumDeclaration Node.Orderly s := by
  apply gives_start
  apply reading_skip.gives_bind
  intro _ t
  apply reading_identifier.gives_bind
  intro name u
  cases name with
  | none => exact gives_finish fun n h => orderly_of_leaf h rfl rfl (by simp)
  | some name =>
    apply (reading_punct "\x7b").gives_bind
    intro _ v
    apply (reading_commaSeparated "\x7d" reading_enumMember).gives_bind
    intro members w
    apply (reading_punct "\x7d").gives_bind
    intro _ x
    exact gives_finish fun n h => orderly_of_leaf h rfl rfl (by simp)

lemma gives_sourceElement {element : Parser Node} (h : Gives m element Node.Quiet s) :
    Gives m (sourceElement element) Node.Orderly s := by
  apply h.bind
  intro x t hx
  apply gives_make
  intro n hn
  exact orderly_of_quiet (quiet_of_kind hn rfl rfl (by simpa [Kind.children] using hx)) hn (by simp)

/-- The layer of a declared property is made behind its name. -/
lemma gives_declares {member : PublicMember Node} (h : member.name.span.stop ≤ s.previousStop) (start : Nat) :
    Gives m (finish (.publicMember member) start) Node.Declares s := by
  rintro hs n t ⟨⟩
  refine ⟨⟨⟨hs.eof,hs.ordered,hs.texts⟩,hs.budget⟩,?_⟩
  rintro _ ⟨⟩ -
  exact Nat.le_trans h (Nat.le_max_left _ _)

lemma gives_declares_requiredMember (start : Nat) (modifiers : MemberModifiers) :
    Gives m (requiredMember start modifiers) Node.Declares s := by
  intro hs n v hv
  obtain ⟨name,t,hname,hv⟩ := bind_eq_ok hv
  have ht := ((reading_requiredName modifiers s hs).of_ok hname).follows.within hs
  cases name with
  | none =>
    obtain ⟨_,u,hu,hv⟩ := bind_eq_ok hv
    have hwithin := ((reading_reportHere _ t ht).of_ok hu).follows.within ht
    have herror (n : Node) (hn : n.kind = .error) : n.Declares := Node.declares_of_kind (by simp [hn])
    exact gives_finish herror hwithin n v hv
  | some name =>
    obtain ⟨_,u,hu,hv⟩ := bind_eq_ok hv
    have hend := ((reading_endStatement t ht).of_ok hu).follows
    unfold requiredName at hname
    split at hname
    · have hstop := stop_of_identifier hs.eof hname
      refine gives_declares ?_ start (hend.within ht) n v hv
      exact Nat.le_trans (Nat.le_of_eq hstop) (hend.order ht.ordered).2.1
    · cases hname

lemma gives_requiredMember (start : Nat) (modifiers : MemberModifiers) :
    Gives m (requiredMember start modifiers) Node.Quiet s := by
  apply (reading_requiredName modifiers).gives_bind
  intro name t
  cases name with
  | some name =>
    apply reading_endStatement.gives_bind
    intro _ u
    exact gives_finish fun n h => quiet_of_leaf h rfl rfl
  | none =>
    apply (reading_reportHere _).gives_bind
    intro _ u
    exact gives_finish fun n h => quiet_of_leaf h rfl rfl

end

/-! Objects. -/

section

variable {m : Nat} {go : Reader} {s : State}

/-- A way to read goals under which what is read in braces are orderly members. -/
def Tidy (m : Nat) (go : Reader) : Prop := ∀ s : State, s.Ready → s.budget < m → ∀ n t,
  go .initializer s = .ok (n, t) → n.kind.isBody ∧ ∀ c ∈ n.children, c.Orderly

/-- A node that is an orderly object. -/
structure IsObject (n : Node) : Prop where
  object : n.objectForm?.isSome
  orderly : n.Orderly

variable (hgo : Obeys m go) (htidy : Tidy m go)
include hgo htidy

lemma gives_initializer :
    Gives m (initializer go) (fun n => n.kind.isBody ∧ ∀ c ∈ n.children, c.Orderly) s := by
  intro hs n t ht
  have hread : Reads s [n] t := (reading_initializer hgo s hs).of_ok ht
  refine ⟨hread.follows.within hs,?_⟩
  change (if maxNesting ≤ s.depth then _ else _ : Parser Node) s = _ at ht
  split at ht
  · cases ht
    exact ⟨rfl,fun c hc => absurd hc List.not_mem_nil⟩
  · rename_i hdepth
    have hready : { s with depth := s.depth + 1 }.Ready := ⟨hs.eof,hs.ordered,hs.texts⟩
    obtain ⟨_,_,⟨⟩,ht⟩ := bind_eq_ok ht
    obtain ⟨node,u,hnode,⟨⟩⟩ := bind_eq_ok ht
    exact htidy _ hready (State.budget_deeper hs hdepth) _ _ hnode

/-- A type name has been read, and the braces come next. -/
lemma gives_objectLayer (typeName : QualifiedName) (start : Nat) :
    Gives m (do
      let init ← initializer go
      finish (.objectDefinition typeName init) start) IsObject s := by
  apply (gives_initializer hgo htidy).bind
  intro init t hinit
  apply gives_finish
  intro n hn
  have hform : n.objectForm? = some ⟨n.id, typeName.joined, n.span, init⟩ := by
    simp [Node.objectForm?,hn]
  exact ⟨by simp [hform],.object hform hinit.1 hinit.2⟩

/-- The names have been read, and the braces come next. -/
lemma gives_bindingLayer (name typeName : QualifiedName) (on : Bool) (start : Nat) :
    Gives m (do
      let init ← initializer go
      finish (.objectBinding name typeName init on) start) IsObject s := by
  apply (gives_initializer hgo htidy).bind
  intro init t hinit
  apply gives_finish
  intro n hn
  obtain ⟨f,hform,hbody⟩ : ∃ f, n.objectForm? = some f ∧ f.initializer = init := by
    simp [Node.objectForm?,hn]
  refine ⟨by simp [hform],.object hform ?_ ?_⟩
  · rw [hbody]
    exact hinit.1
  · rw [hbody]
    exact hinit.2

lemma gives_objectDefinition : Gives m (objectDefinition go) IsObject s := by
  apply gives_start
  apply reading_qualifiedName.gives_bind
  intro typeName t
  exact gives_objectLayer hgo htidy typeName s.front

lemma gives_arrayMember : Gives m (arrayMember go) (fun l => ∀ n ∈ l, IsObject n) s := by
  apply gives_upcoming
  apply gives_ite
  · intro _
    apply (gives_objectDefinition hgo htidy).bind
    intro n t hn
    exact gives_pure (by simpa using hn)
  · intro _
    apply (reading_reportHere _).gives_bind
    intro _ t
    exact gives_pure (by simp)

lemma gives_objectArray : Gives m (objectArray go) (fun r => ∀ n ∈ r.1, IsObject n) s := by
  apply gives_start
  apply reading_skip.gives_bind
  intro _ t
  have hmembers : Gives m (commaSeparated "]" (arrayMember go)) (fun l => ∀ n ∈ l, IsObject n) t := by
    apply gives_collectUntil
    intro u
    exact gives_commaRound (gives_arrayMember hgo htidy)
  apply hmembers.bind
  intro members u h
  apply (reading_punct "]").gives_bind
  intro _ v
  exact gives_get (gives_pure h)

omit hgo htidy in
lemma orderly_of_array {n : Node} {name : QualifiedName} {members : List Node} {brackets : Span}
    (hn : n.kind = .arrayBinding name members brackets) (h : ∀ c ∈ members, IsObject c) : n.Orderly :=
  .array hn (fun c hc => (h c hc).object) fun c hc => (h c hc).orderly

/-- What a declared property may start with: a script without objects, or an object or a row of objects
instead of it. -/
structure FirstValue.Orderly (v : FirstValue) : Prop where
  quiet : ∀ x ∈ v.statement, x.Quiet
  alone : v.binding.isSome → v.statement = none
  value : ∀ b ∈ v.binding,
    b.objectForm?.isSome ∨ ∃ name members brackets, b.kind = .arrayBinding name members brackets
  below : ∀ b ∈ v.binding, b.Orderly

variable (hscripts : Faithful true go)
include hscripts

omit htidy in
lemma gives_quietScript : Gives m (script go) Node.Quiet s :=
  gives_script (reading_script hgo s) (hscripts.script {} s)

lemma gives_firstValue (name : Ident) : Gives m (firstValue go name) FirstValue.Orderly s := by
  apply (reading_eatPunct ":").gives_bind
  intro colon t
  apply gives_ite
  · intro _
    apply gives_upcoming
    apply gives_ite
    · intro _
      apply (gives_objectDefinition hgo htidy).bind
      intro n u hn
      apply gives_pure
      refine ⟨by simp,by simp,?_,?_⟩
      · rintro b ⟨⟩
        exact .inl hn.object
      · rintro b ⟨⟩
        exact hn.orderly
    · intro _
      apply gives_ite
      · intro _
        apply (gives_objectArray hgo htidy).bind
        intro r u hr
        apply (gives_make (Q := fun n => n.kind = .arrayBinding ⟨[name]⟩ r.1 r.2) fun n hn => hn).bind
        intro array v harray
        apply gives_pure
        refine ⟨by simp,by simp,?_,?_⟩
        · rintro b ⟨⟩
          exact .inr ⟨_,_,_,harray⟩
        · rintro b ⟨⟩
          exact orderly_of_array harray hr
      · intro _
        apply (gives_quietScript hgo hscripts).bind
        intro n u hn
        apply gives_pure
        refine ⟨?_,by simp,by simp,by simp⟩
        rintro x ⟨⟩
        exact hn
  · intro _
    apply reading_endStatement.gives_bind
    intro _ u
    exact gives_pure ⟨by simp,by simp,by simp,by simp⟩

omit hgo htidy hscripts in
/-- A declared property is orderly around an orderly value. -/
lemma orderly_of_declared {n : Node} {member : PublicMember Node} {value : FirstValue}
    (hn : n.kind = .publicMember member) (hkind : member.kind = .property)
    (hstatement : member.statement = value.statement) (hbinding : member.binding = value.binding)
    (h : value.Orderly) (hdeclares : n.Declares) : n.Orderly := by
  cases hvalue : value.binding with
  | none =>
    refine .quiet (quiet_of_kind hn rfl rfl ?_) hdeclares
    intro c hc
    apply h.quiet
    simpa [Kind.children,hbinding,hvalue,hstatement] using hc
  | some b =>
    refine .declared hn hkind ?_ (hbinding.trans hvalue) (h.value b hvalue) (h.below b hvalue) hdeclares
    exact hstatement.trans (h.alone (by simp [hvalue]))

omit htidy hscripts in
lemma gives_declares_propertyMember (start : Nat) (modifiers : MemberModifiers) :
    Gives m (propertyMember go start modifiers) Node.Declares s := by
  intro hs n w hw
  obtain ⟨type,t,htype,hw⟩ := bind_eq_ok hw
  have ht := ((reading_declaredType s hs).of_ok htype).follows.within hs
  obtain ⟨name,u,hname,hw⟩ := bind_eq_ok hw
  have hu := ((reading_identifier t ht).of_ok hname).follows.within ht
  cases name with
  | none =>
    have herror (n : Node) (hn : n.kind = .error) : n.Declares := Node.declares_of_kind (by simp [hn])
    exact gives_finish herror hu n w hw
  | some name =>
    obtain ⟨value,v,hvalue,hw⟩ := bind_eq_ok hw
    have hfollows := ((ends_firstValue hgo name hu).of_ok hvalue).1.follows
    have hstop := stop_of_identifier ht.eof hname
    refine gives_declares ?_ start (hfollows.within hu) n w hw
    exact Nat.le_trans (Nat.le_of_eq hstop) (hfollows.order hu.ordered).2.1

lemma gives_propertyMember (start : Nat) (modifiers : MemberModifiers) :
    Gives m (propertyMember go start modifiers) Node.Orderly s := by
  apply Gives.mp _ (gives_declares_propertyMember hgo start modifiers)
  apply reading_declaredType.gives_bind
  intro type t
  apply reading_identifier.gives_bind
  intro name u
  cases name with
  | none => exact gives_finish fun n h => .quiet (quiet_of_leaf h rfl rfl)
  | some name =>
    apply (gives_firstValue hgo htidy hscripts name).bind
    intro value v hvalue
    exact gives_finish fun n h => orderly_of_declared h rfl rfl rfl hvalue

lemma gives_publicMember : Gives m (publicMember go) Node.Orderly s := by
  apply gives_start
  apply reading_memberModifiers.gives_bind
  intro modifiers t
  apply (reading_eatName "property").gives_bind
  intro isProperty u
  apply gives_ite
  · intro _
    exact gives_propertyMember hgo htidy hscripts s.front modifiers
  · intro _ hu n v hv
    have h := gives_requiredMember s.front modifiers hu n v hv
    exact ⟨h.1,.quiet h.2 (gives_declares_requiredMember s.front modifiers hu n v hv).2⟩

lemma gives_boundValue (start : Nat) (name : QualifiedName) :
    Gives m (boundValue go start name) Node.Orderly s := by
  have horderly {p : Parser Node} {s : State} (h : Gives m p IsObject s) : Gives m p Node.Orderly s := by
    intro hs n t ht
    exact ⟨(h hs n t ht).1,(h hs n t ht).2.orderly⟩
  apply gives_upcoming
  apply gives_ite
  · intro _
    apply reading_qualifiedName.gives_bind
    intro typeName t
    exact horderly (gives_bindingLayer hgo htidy name typeName false start)
  · intro _
    apply gives_ite
    · intro _
      apply (gives_objectArray hgo htidy).bind
      intro r t hr
      exact gives_finish fun n hn => orderly_of_array hn hr
    · intro _
      apply (gives_quietScript hgo hscripts).bind
      intro x t hx
      apply gives_make
      intro n hn
      exact orderly_of_quiet (quiet_of_kind hn rfl rfl (by simpa [Kind.children] using hx)) hn (by simp)

lemma gives_bindingMember : Gives m (bindingMember go) Node.Orderly s := by
  have horderly {p : Parser Node} {s : State} (h : Gives m p IsObject s) : Gives m p Node.Orderly s := by
    intro hs n t ht
    exact ⟨(h hs n t ht).1,(h hs n t ht).2.orderly⟩
  apply gives_start
  apply reading_qualifiedName.gives_bind
  intro name t
  apply (reading_atName "on").gives_bind
  intro on u
  apply (reading_ahead 1).gives_bind
  intro next v
  apply gives_ite
  · intro _
    apply reading_skip.gives_bind
    intro _ w
    apply reading_qualifiedName.gives_bind
    intro target x
    exact horderly (gives_bindingLayer hgo htidy target name true s.front)
  · intro _
    apply (reading_atPunct "\x7b").gives_bind
    intro braces w
    apply gives_ite
    · intro _
      exact horderly (gives_objectLayer hgo htidy name s.front)
    · intro _
      apply (reading_expectPunct ":").gives_bind
      intro colon x
      apply gives_ite
      · intro _
        exact gives_boundValue hgo htidy hscripts s.front name
      · intro _
        exact gives_finish fun n h => orderly_of_leaf h rfl rfl (by simp)

lemma gives_namedMember (hname : s.peek.kind = .name) :
    Gives m (namedMember go s.peek (s.ahead 1) (s.ahead 2)) Node.Orderly s := by
  have hfunction (h : StartsFunction s) : Gives m (sourceElement (functionDeclaration go)) Node.Orderly s := by
    apply gives_sourceElement
    refine gives_script (fun hs => ends_functionDeclaration hgo hs ?_) (leads_functionDeclaration hscripts h)
    exact State.rest_ne_nil hs.eof (by simp [hname])
  apply gives_ite
  · intro _
    exact gives_publicMember hgo htidy hscripts
  intro _
  apply gives_ite
  · intro _
    exact gives_signalMember
  intro _
  apply gives_ite
  · intro _
    exact gives_enumDeclaration
  intro _
  apply gives_ite
  · intro hword
    rw [Bool.and_eq_true] at hword
    exact hfunction (startsFunction_of hname rfl (.inl hword.1))
  intro _
  apply gives_ite
  · intro hword
    exact hfunction (startsFunction_of hname rfl (.inr hword))
  intro _
  apply gives_ite
  · intro _
    apply gives_sourceElement
    exact gives_script (reading_variableStatement hgo s) (leads_variableStatement hscripts hname)
  intro _
  exact gives_bindingMember hgo htidy hscripts

lemma gives_objectMember : Gives m (objectMember go) (fun l => ∀ n ∈ l, n.Orderly) s := by
  apply gives_peek
  apply gives_ite
  · intro h
    apply gives_ahead
    apply gives_ahead
    apply (gives_namedMember hgo htidy hscripts (beq_iff_eq.mp h)).bind
    intro n t hn
    exact gives_pure (by simpa using hn)
  · intro _
    apply (reading_reportHere _).gives_bind
    intro _ t
    exact gives_pure (by simp)

lemma gives_readInitializer : Gives m (readInitializer go)
    (fun n => n.kind.isBody ∧ ∀ c ∈ n.children, c.Orderly) s := by
  apply gives_start
  apply (reading_punct "\x7b").gives_bind
  intro _ t
  have hmembers : Gives m (collectUntil (·.isPunct "\x7d") (everyRound (objectMember go)))
      (fun l => ∀ n ∈ l, n.Orderly) t := by
    apply gives_collectUntil
    intro u
    exact gives_everyRound (gives_objectMember hgo htidy hscripts)
  apply hmembers.bind
  intro members u h
  apply (reading_punct "\x7d").gives_bind
  intro _ v
  apply gives_finish
  intro n hn
  unfold Node.children
  rw [hn]
  exact ⟨rfl,h⟩

end

/-- By induction on the levels. -/
theorem tidy_readWithin (m : Nat) : Tidy m (readWithin m) := by
  induction m with
  | zero =>
    intro s _ h
    exact absurd h (Nat.not_lt_zero _)
  | succ m ih =>
    intro s hs h n t ht
    have hwithin : s.Within m := ⟨hs,by omega⟩
    exact (gives_readInitializer (obeys_readWithin m) ih (faithful_readWithin true m) hwithin n t ht).2

/-! Documents. -/

section

variable {m : Nat} {s : State}

lemma gives_importHeader : Gives m importHeader Node.Quiet s := by
  apply gives_start
  apply gives_place
  apply reading_skip.gives_bind
  intro _ t
  apply reading_importTarget.gives_bind
  intro target u
  apply reading_importVersion.gives_bind
  intro version v
  apply reading_importQualifier.gives_bind
  intro qualifier w
  apply reading_endStatement.gives_bind
  intro _ x
  apply (reading_announce _).gives_bind
  intro _ y
  exact gives_finish fun n h => quiet_of_leaf h rfl rfl

lemma gives_pragmaHeader : Gives m pragmaHeader Node.Quiet s := by
  apply gives_start
  apply reading_skip.gives_bind
  intro _ t
  apply reading_identifier.gives_bind
  intro name u
  apply reading_endStatement.gives_bind
  intro _ v
  apply gives_finish
  intro n hn
  cases name <;> exact quiet_of_leaf hn rfl rfl

lemma gives_header : Gives m header (fun r => ∀ n ∈ r.items, n.Quiet) s := by
  have hone {p : Parser Node} (h : Gives m p Node.Quiet s) :
      Gives m (do return (⟨[← p], true⟩ : Round Node)) (fun r => ∀ n ∈ r.items, n.Quiet) s := by
    apply h.bind
    intro n t hn
    exact gives_pure (by simpa using hn)
  apply gives_peek
  apply gives_ahead
  apply gives_ite
  · intro _
    exact hone gives_importHeader
  intro _
  apply gives_ite
  · intro _
    exact hone gives_pragmaHeader
  intro _
  exact gives_pure (by simp)

lemma gives_rootObject {go : Reader} (hgo : Obeys m go) (htidy : Tidy m go) :
    Gives m (rootObject go) (fun l => l.length ≤ 1 ∧ ∀ n ∈ l, IsObject n) s := by
  apply gives_upcoming
  apply gives_ite
  · intro _
    apply (gives_objectDefinition hgo htidy).bind
    intro n t hn
    apply (reading_refuseRest _).gives_bind
    intro _ u
    exact gives_pure ⟨Nat.le_refl _,by simpa using hn⟩
  · intro _
    apply (reading_reportHere _).gives_bind
    intro _ t
    apply reading_skipRest.gives_bind
    intro _ u
    exact gives_pure ⟨Nat.zero_le _,by simp⟩

lemma gives_readQml {go : Reader} (hgo : Obeys m go) (htidy : Tidy m go) (whole : Span) :
    Gives m (readQml go whole) Node.Rooted s := by
  apply (gives_collect fun _ => gives_header).bind
  intro headers t hheaders
  apply (gives_rootObject hgo htidy).bind
  intro members u hmembers
  apply gives_make
  intro n hn
  exact .mk hn hheaders hmembers.1 (fun c hc => (hmembers.2 c hc).object)
    fun c hc => (hmembers.2 c hc).orderly

end

/-- The objects of a document stand where the grammar puts them. -/
theorem rooted_of_parse? {source : String} {p : Parse} (h : parse? .qml source = some p) :
    p.root.Rooted := by
  obtain ⟨root,t,hreading,hroot,-⟩ := reading_of_parse? h
  rw [hroot]
  exact (gives_readQml (obeys_readWithin _) (tidy_readWithin _) _ (opening_within source.toList)
    root t hreading).2

/-- Only documents hold objects. -/
theorem quiet_of_parse? {form : SourceForm} {source : String} {p : Parse}
    (h : parse? form source = some p) (hform : form ≠ .qml) : p.root.Quiet := by
  obtain ⟨root,t,hreading,hroot,-⟩ := reading_of_parse? h
  rw [hroot]
  have hwithin := opening_within source.toList
  have hscripts := faithful_readWithin true (maxNesting + (opening source.toList).rest.length + 1)
  have hgo := obeys_readWithin (maxNesting + (opening source.toList).rest.length + 1)
  cases form with
  | qml => exact absurd rfl hform
  | program =>
    refine (Gives.bind (Q := fun _ => True) ?_ fun _ s _ => ?_ : Gives _ (readProgram _ _) Node.Quiet _)
      hwithin root t hreading |>.2
    · exact (reading_discard (reading_collect reading_directive directive_advances) fun _ => by simp).gives
    refine (gives_scripts (reading_statementsUntil hgo _ _) (keeps_statementsUntil hscripts _ {} s)).bind
      fun elements u helements => gives_make fun n hn => ?_
    have hchildren : n.children = elements := by
      unfold Node.children
      rw [hn]
      rfl
    rw [nodes_nodes] at helements
    refine Node.quiet_of_children ?_ (fun _ c hc => ?_) fun c hc => quiet_of_isScript fun x hx => ?_
    · simp [Node.objectForm?,hn]
    · exact helements c (List.mem_flatMap.mpr ⟨c,hchildren ▸ hc,c.mem_walk_self⟩)
    · exact helements x (List.mem_flatMap.mpr ⟨c,hchildren ▸ hc,hx⟩)
  | expression =>
    exact (gives_script (reading_readSingleExpression hgo _) (keeps_readSingleExpression hscripts {} _)
      hwithin root t hreading).2

/-- In the tree of a source scripts hold nothing but scripts. -/
theorem layered_of_parse? {form : SourceForm} {source : String} {p : Parse}
    (h : parse? form source = some p) : p.root.Layered := by
  by_cases hform : form = .qml
  · subst hform
    exact (rooted_of_parse? h).layered
  · exact (quiet_of_parse? h hform).layered

/-- No node hangs at two places of the tree of a source. -/
theorem nodup_of_parse? {form : SourceForm} {source : String} {p : Parse}
    (h : parse? form source = some p) : (p.root.walk.map Node.id).Nodup := by
  obtain ⟨root,t,hreading,hroot,-⟩ := reading_of_parse? h
  rw [hroot]
  have hdistinct : (([root].flatMap Node.walk).map Node.id).Nodup := by
    cases roots_reading hreading with
    | document hreads => exact (hreads.numbered.layer _ _).distinct
    | program hreads => exact (hreads.numbered.layer _ _).distinct
    | expression hreads => exact hreads.numbered.distinct
  simpa using hdistinct

end QmlCodeModel.Grammar
