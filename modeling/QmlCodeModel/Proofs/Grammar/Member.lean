import QmlCodeModel.Proofs.Grammar.Name
import QmlCodeModel.Proofs.Grammar.Statement

/-! Objects of a document and their members are readings. -/
namespace QmlCodeModel.Grammar

section

variable {m : Nat} {s t : State} {xs : List Node}

/-- A type in angle brackets after the word `list`. -/
lemma reading_listed {α : Type} [Silent α] (f : QualifiedName → α) : Reading m (do
    let inner ← qualifiedName
    discard (expectPunct ">")
    pure (f inner)) :=
  reading_of_resumes fun _ => reading_qualifiedName.resumes_bind fun _ =>
    (reading_punct ">").resumes_bind fun _ => resumes_pure rfl

lemma reading_memberType : Reading m memberType := by
  refine reading_of_resumes fun s => (reading_atName "list").resumes_bind fun _ => ?_
  refine (reading_ahead 1).resumes_bind fun _ => resumes_ite (fun _ => ?_) fun _ => ?_
  · refine reading_skip.resumes_bind fun _ => reading_skip.resumes_bind fun _ => ?_
    exact (reading_listed id).resumes.congr (by simp)
  · exact reading_qualifiedName.resumes.congr (by simp)

lemma reading_signalParameter : Reading m signalParameter := by
  refine reading_of_resumes fun s => reading_peek.resumes_bind fun _ => ?_
  refine (reading_ahead 1).resumes_bind fun _ => resumes_ite (fun _ => ?_) fun _ => ?_
  · refine reading_bump.resumes_bind fun _ => reading_skip.resumes_bind fun _ => ?_
    exact reading_memberType.resumes_bind fun _ => resumes_pure (by simp)
  · refine reading_memberType.resumes_bind fun _ => reading_identifier.resumes_bind fun name => ?_
    cases name <;> exact resumes_pure (by simp)

lemma reading_signalParameters : Reading m signalParameters := by
  refine reading_of_resumes fun s => (reading_eatPunct "(").resumes_bind fun _ => ?_
  refine resumes_ite (fun _ => ?_) fun _ => resumes_pure rfl
  refine (reading_commaSeparated ")" reading_signalParameter).resumes_bind fun _ => ?_
  exact (reading_punct ")").resumes_bind fun _ => resumes_pure (by simp)

lemma reading_signalMember : Reading m signalMember := by
  refine reading_start fun s => reading_skip.resumes_bind fun _ => ?_
  refine reading_identifier.resumes_bind fun name => ?_
  cases name with
  | none => exact resumes_finish rfl rfl
  | some name =>
    refine reading_signalParameters.resumes_bind fun parameters => ?_
    exact reading_endStatement.resumes_bind fun _ => resumes_finish (by simp [Kind.children]) rfl

lemma reading_enumValue : Reading m enumValue := by
  refine reading_of_resumes fun s => (reading_eatPunct "-").resumes_bind fun _ => ?_
  refine reading_peek.resumes_bind fun _ => resumes_ite (fun _ => ?_) fun _ => ?_
  · exact reading_bump.resumes_bind fun _ => resumes_pure (by simp)
  · exact (reading_reportHere _).resumes_bind fun _ => resumes_pure rfl

lemma reading_enumInitializer : Reading m enumInitializer := by
  refine reading_of_resumes fun s => (reading_eatPunct "=").resumes_bind fun _ => ?_
  exact resumes_ite (fun _ => reading_enumValue.resumes.congr (by simp)) fun _ => resumes_pure rfl

lemma reading_enumMember : Reading m enumMember := by
  refine reading_of_resumes fun s => reading_identifier.resumes_bind fun name => ?_
  cases name with
  | none => exact resumes_pure rfl
  | some name => exact reading_enumInitializer.resumes_bind fun _ => resumes_pure (by simp)

lemma reading_enumDeclaration : Reading m enumDeclaration := by
  refine reading_start fun s => reading_skip.resumes_bind fun _ => ?_
  refine reading_identifier.resumes_bind fun name => ?_
  cases name with
  | none => exact resumes_finish rfl rfl
  | some name =>
    refine (reading_punct "\x7b").resumes_bind fun _ => ?_
    refine (reading_commaSeparated "\x7d" reading_enumMember).resumes_bind fun members => ?_
    exact (reading_punct "\x7d").resumes_bind fun _ => resumes_finish (by simp [Kind.children]) rfl

lemma reading_memberModifier (found : MemberModifiers) : Reading m (memberModifier found) := by
  refine reading_of_resumes fun s => reading_peek.resumes_bind fun t => ?_
  refine (reading_ahead 1).resumes_bind fun _ => resumes_ite (fun _ => ?_) fun _ => resumes_pure rfl
  exact (reading_skipIf _).resumes_bind fun _ => resumes_pure (by simp)

lemma kind_ne_eof_of_note {found : MemberModifiers} {t : Token} (h : (found.note t).isSome) :
    t.kind ≠ .eof := by
  intro heof
  simp [MemberModifiers.note,Token.isName,heof] at h

/-- A modifier that has been noted has been taken. -/
lemma memberModifier_takes (found : MemberModifiers) (hs : s.Within m) :
    Ends s.rest (memberModifier found) s fun next t =>
      next.isSome → t.rest.length < s.rest.length := by
  unfold memberModifier
  rw [ends_peek,ends_bind]
  change Ends s.rest (if _ then _ else _) s _
  split
  · by_cases h : (found.note s.peek).isSome
    · simp only [h,skipIf,if_true]
      rw [ends_skip,ends_pure]
      exact fun _ => hs.advance_lt (kind_ne_eof_of_note h)
    · simp only [h,skipIf,Bool.false_eq_true,if_false]
      rw [ends_bind]
      exact fun h' => absurd h' h
  · exact fun h => absurd h Bool.false_ne_true

lemma reading_memberModifiers : Reading m (iterate memberModifier {}) := by
  refine reading_of_resumes fun s => resumes_iterate (f := nodes) fun hs a t ht => .inr ?_
  have hwithin := ht.follows.within hs
  have h := (reading_memberModifier a t hwithin).and (memberModifier_takes a hwithin)
  refine (h.of_suffix ht.follows.rest).mono fun next u hu => ?_
  exact ⟨(ht.append hu.1).congr (by simp) rfl,hu.1.follows.rest,hu.2⟩

lemma reading_declaredType : Reading m declaredType := by
  refine reading_of_resumes fun s => (reading_atName "list").resumes_bind fun _ => ?_
  refine (reading_ahead 1).resumes_bind fun _ => resumes_ite (fun _ => ?_) fun _ => ?_
  · refine reading_bump.resumes_bind fun _ => reading_skip.resumes_bind fun _ => ?_
    refine reading_qualifiedName.resumes_bind fun _ => ?_
    exact (reading_punct ">").resumes_bind fun _ => resumes_pure (by simp)
  · exact reading_qualifiedName.resumes_bind fun _ => resumes_pure (by simp)

end

section

variable {m : Nat} {go : Reader} {s t : State} {xs : List Node} (hgo : Obeys m go)
include hgo

/-- The members of an object are read as such, and behind the tokens taken before. -/
lemma ends_initializer (hs : s.Within m) : Ends s.rest (initializer go) s fun n t =>
    Reads s [n] t ∧ n.kind.isBody ∧ s.front ≤ n.span.start := by
  have hbody : Ends s.rest (initializer go) s fun n _ => n.kind.isBody :=
    ends_deeper (fun n hn => by rw [hn]; rfl) hgo.body hs
  refine ((reading_initializer hgo s hs).and hbody).mono fun n t ht => ?_
  exact ⟨ht.1,ht.2,(ht.1.row hs.ordered).start n (List.mem_singleton_self n)⟩

omit hgo in
lemma kind_of_startsObject {typeNamed : Bool} (h : startsObject typeNamed s.rest) :
    s.peek.kind = .name := by
  unfold State.peek
  cases hrest : s.rest with
  | nil => simp [hrest,startsObject] at h
  | cons t rest =>
    simp only [hrest,startsObject,Token.isBindable,Bool.and_eq_true,beq_iff_eq] at h
    exact h.1.1.1

/-- The layer of an object, around its members. -/
lemma ends_objectLayer {name : QualifiedName} (hs : s.Within m) (ht : ReadsName s name t) :
    Ends s.rest (do
      let init ← initializer go
      finish (.objectDefinition name init) s.front) t fun n u => Reads s [n] u ∧ u.rest <:+ t.rest := by
  have hfront := (Reads.nothing t).front_of_taken (ht.reads.follows.order hs.ordered).1 ht.taken
  have hinit := ends_initializer hgo (ht.reads.follows.within hs)
  refine (hinit.of_suffix ht.reads.follows.rest).bind fun init u hu => ?_
  obtain ⟨hread,hbody,hstart⟩ := hu
  have htaken := hread.front_of_taken (ht.reads.follows.order hs.ordered).1 ht.taken
  refine ⟨.layer _ _ (ht.reads.append hread) (.nothing u) ?_ trivial (.of_shaped trivial rfl rfl),
    hread.follows.rest⟩
  have hspan := State.spanFrom_of_le (Nat.le_of_lt htaken.1)
  exact ⟨hspan,htaken.1,ht.joined,Nat.lt_of_lt_of_le hfront.2 hstart,hbody⟩

lemma ends_objectDefinition (hs : s.Within m) (hname : s.peek.kind = .name) :
    Ends s.rest (objectDefinition go) s fun n t => Reads s [n] t := by
  unfold objectDefinition
  rw [ends_start]
  refine (ends_qualifiedName hs hname).bind fun name t ht => ?_
  exact (ends_objectLayer hgo hs ht).mono fun n u hu => hu.1

lemma reading_arrayMember : Reading m (arrayMember go) := by
  intro s hs
  unfold arrayMember
  rw [ends_upcoming]
  split
  · rename_i h
    refine (ends_objectDefinition hgo hs (kind_of_startsObject h)).bind fun n t ht => ?_
    exact ht.congr (by simp) rfl
  · exact .complaint s s.front .expectedObjectDefinition

/-- The brackets of an array go around its members. -/
lemma ends_objectArray (hs : s.Within m) (h : startsObjectArray s.rest) :
    Ends s.rest (objectArray go) s fun r t =>
      Reads s r.1 t ∧ r.2 = t.spanFrom s.front ∧ s.front < t.previousStop := by
  have hopen : s.rest ≠ [] := by
    intro hrest
    simp [hrest,startsObjectArray] at h
  have htaken := State.front_lt_advance hs.ordered hopen
  have hadvance := s.follows_advance
  have hmembers := reading_commaSeparated "]" (reading_arrayMember hgo)
  unfold objectArray
  rw [ends_start,ends_skip]
  refine (hmembers.after hs (.token s)).bind fun members t ht => ?_
  have hread : Reads s members t :=
    (Reads.append (.token s) ht).congr (by simp) rfl
  refine ((reading_punct "]").after hs hread).bind fun _ u hu => ?_
  rw [ends_get,ends_pure]
  refine ⟨(hread.append hu).congr (by simp) rfl,rfl,?_⟩
  exact ((ht.append hu).front_of_taken (hadvance.order hs.ordered).1 htaken).1

/-- A block that is a script starts with its brace. -/
lemma script_opened (hs : s.Within m) :
    Ends s.rest (script go) s fun n t => Reads s [n] t ∧ n.Opened := by
  unfold script
  rw [ends_peek]
  split
  · refine (reading_statement hgo s hs).and (ends_deeper (fun n hn => ?_) hgo.opened hs)
    exact opened_of_isBlock (by rw [hn]; rfl)
  · have h := makes_expressionStatement.ends (reading_expressionStatement hgo s hs)
    exact h.mono fun n t ht => ⟨ht.1,opened_of_isBlock ht.2⟩

lemma reading_script : Reading m (script go) := fun _ hs => (script_opened hgo hs).mono fun _ _ ht => ht.1

/-- The first value of a property has been read: nothing or a script, an object, or objects in brackets. -/
inductive ReadsValue (name : Ident) (s : State) : FirstValue → State → Prop
  | script (statement : Option Node) {t : State} (h : Reads s statement.toList t)
    (opened : ∀ x ∈ statement, x.Opened) : ReadsValue name s { statement } t
  | object {n : Node} {t : State} (h : Reads s [n] t) : ReadsValue name s { binding := some n } t
  | array {members : List Node} {t u : State} (h : Reads s [] t) (h' : Reads t members u)
    (closed : t.front < u.previousStop) :
    ReadsValue name s
      { binding := some (u.make (u.spanFrom t.front)
          (.arrayBinding ⟨[name]⟩ members (u.spanFrom t.front))).1 }
      (u.make (u.spanFrom t.front) (.arrayBinding ⟨[name]⟩ members (u.spanFrom t.front))).2

omit hgo in
lemma ReadsValue.follows {name : Ident} {value : FirstValue} (h : ReadsValue name s value t) : s.Follows t := by
  cases h with
  | script statement h _ => exact h.follows
  | object h => exact h.follows
  | array h h' closed =>
    have hread := (h.append h').follows
    exact ⟨hread.rest,hread.eof,hread.depth,hread.allowIn,hread.inAsync,hread.inGenerator,hread.taken,hread.order⟩

lemma ends_firstValue (name : Ident) (hs : s.Within m) :
    Ends s.rest (firstValue go name) s fun value t => ReadsValue name s value t ∧ t.rest <:+ s.rest := by
  unfold firstValue
  refine ends_eat (fun _ => ?_) fun _ => ?_
  · have hwithin := s.follows_advance.within hs
    have hsuffix := s.follows_advance.rest
    have hcolon : Reads s [] s.advance := .token s
    rw [if_pos rfl,ends_upcoming]
    split
    · rename_i h
      have hobject := ends_objectDefinition hgo hwithin (kind_of_startsObject h)
      refine (hobject.of_suffix hsuffix).bind fun n t ht => ?_
      exact ⟨.object (hcolon.append ht),ht.follows.rest.trans hsuffix⟩
    split
    · rename_i h
      refine ((ends_objectArray hgo hwithin h).of_suffix hsuffix).bind fun r t ht => ?_
      obtain ⟨members,brackets⟩ := r
      obtain ⟨hread,rfl,hclosed⟩ := ht
      exact ⟨.array hcolon hread hclosed,hread.follows.rest.trans hsuffix⟩
    · refine ((script_opened hgo hwithin).of_suffix hsuffix).bind fun n t ht => ?_
      refine ⟨.script (some n) (hcolon.append ht.1) ?_,ht.1.follows.rest.trans hsuffix⟩
      rintro _ ⟨⟩
      exact ht.2
  · refine (reading_endStatement s hs).bind fun _ t ht => ?_
    exact ⟨.script none ht nofun,ht.follows.rest⟩

omit hgo in
/-- The layer of a declared property around its first value. -/
lemma ReadsValue.member {member : PublicMember Node} {value : FirstValue}
    (h : ReadsValue member.name t value u) (hs : s.Ordered) (ht : Reads s [] t)
    (hstart : s.front ≤ member.name.span.start) (htaken : member.name.span.start < t.previousStop)
    (hstatement : member.statement = value.statement) (hbinding : member.binding = value.binding) :
    Reads s [(u.make (u.spanFrom s.front) (.publicMember member)).1]
      (u.make (u.spanFrom s.front) (.publicMember member)).2 := by
  have hordered := (ht.follows.order hs).1
  have hfront := ((Reads.nothing t).front_of_taken hordered htaken).2
  cases h with
  | script statement h opened =>
    refine .layer _ _ ((ht.append h).congr ?_ rfl) (.nothing u) ⟨rfl,fun _ => ⟨hstart,?_,?_⟩⟩ trivial
      (.of_shaped ?_ rfl rfl)
    · simp [Kind.children,hstatement,hbinding]
    · exact (h.front_of_taken hordered htaken).1
    · simp [hbinding]
    · intro x hx
      rw [hstatement] at hx
      exact opened x hx
  | @object n _ h =>
    refine .layer _ _ ((ht.append h).congr ?_ rfl) (.nothing u) ⟨rfl,fun _ => ⟨hstart,?_,?_⟩⟩ trivial
      (.of_shaped ?_ rfl rfl)
    · simp [Kind.children,hstatement,hbinding]
    · exact (h.front_of_taken hordered htaken).1
    · intro b hb
      rw [hbinding] at hb
      cases hb
      exact Nat.lt_of_lt_of_le hfront ((h.row hordered).start n (List.mem_singleton_self n))
    · intro x hx
      rw [hstatement] at hx
      cases hx
  | @array members v w h h' closed =>
    have hlt := (h.front_of_taken hordered htaken).2
    have hread := Reads.declaredArray member _ (ht.append h) h' hstatement hstart hlt closed rfl
    replace hbinding : member.binding = some _ := hbinding
    rwa [← hbinding] at hread

lemma resumes_propertyMember (modifiers : MemberModifiers) :
    Resumes m s [] (propertyMember go s.front modifiers) nodes := by
  refine reading_declaredType.resumes_bind fun (typeName,modifier) => ?_
  intro hs t ht
  replace ht : Reads s [] t := ht.congr (by simp) rfl
  have hwithin := ht.follows.within hs
  refine ((ends_identifier hwithin).of_suffix ht.follows.rest).bind fun name u hu => ?_
  obtain ⟨hread,hname⟩ := hu
  have hboth : Reads s [] u := ht.append hread
  cases name with
  | none =>
    have h : Resumes m s [] (finish .error s.front) nodes := resumes_finish rfl rfl
    exact (h hs u hboth).mono fun _ _ hv => ⟨hv.1,hv.2.trans hread.follows.rest⟩
  | some name =>
    obtain ⟨hstart,htaken⟩ := hname name rfl
    have hvalue := ends_firstValue hgo name (hread.follows.within hwithin)
    refine (hvalue.of_suffix hboth.follows.rest).bind fun value v hv => ?_
    refine ⟨hv.1.member hs.ordered hboth ?_ ?_ rfl rfl,hv.2.trans hread.follows.rest⟩
    · exact hstart ▸ (ht.follows.order hs.ordered).2.2
    · exact hstart ▸ htaken

omit hgo in
lemma reading_requiredName (modifiers : MemberModifiers) : Reading m (requiredName modifiers) :=
  reading_ite (fun _ => reading_identifier) fun _ => reading_pure rfl

omit hgo in
lemma ends_requiredName (modifiers : MemberModifiers) (hs : s.Within m) :
    Ends s.rest (requiredName modifiers) s fun name t =>
      Reads s [] t ∧ ∀ i ∈ name, i.span.start = s.front ∧ s.front < t.previousStop := by
  unfold requiredName
  split
  · exact ends_identifier hs
  · exact ⟨.nothing s,by simp⟩

omit hgo in
lemma resumes_requiredMember (modifiers : MemberModifiers) :
    Resumes m s [] (requiredMember s.front modifiers) nodes := by
  intro hs t ht
  have hwithin := ht.follows.within hs
  refine ((ends_requiredName modifiers hwithin).of_suffix ht.follows.rest).bind fun name u hu => ?_
  obtain ⟨hread,hname⟩ := hu
  have hboth : Reads s [] u := ht.append hread
  suffices h : Ends s.rest _ u fun n v => Reads s [n] v ∧ v.rest <:+ u.rest from
    h.mono fun _ _ hv => ⟨hv.1,hv.2.trans hread.follows.rest⟩
  cases name with
  | none =>
    have h : Resumes m s [] (do
        reportHere (.expected "property")
        finish .error s.front) nodes :=
      (reading_reportHere _).resumes_bind fun _ => resumes_finish rfl rfl
    exact h hs u hboth
  | some name =>
    obtain ⟨hstart,htaken⟩ := hname name rfl
    refine (reading_endStatement.after hs hboth).bind fun _ v hv => ?_
    have hvalue : ReadsValue name u {} v := .script none (hv.congr (by simp) rfl) nofun
    refine ⟨hvalue.member hs.ordered hboth ?_ ?_ rfl rfl,hv.follows.rest⟩
    · exact hstart ▸ (ht.follows.order hs.ordered).2.2
    · exact hstart ▸ htaken

lemma reading_publicMember : Reading m (publicMember go) := by
  refine reading_start fun s => reading_memberModifiers.resumes_bind fun modifiers => ?_
  refine (reading_eatName "property").resumes_bind fun _ => resumes_ite (fun _ => ?_) fun _ => ?_
  · simpa using resumes_propertyMember hgo modifiers
  · simpa using resumes_requiredMember modifiers

/-- The layer of a value that is bound to a name, after the colon. -/
lemma ends_boundValue {name : QualifiedName} (hs : s.Within m) (ht : ReadsName s name t) :
    Ends s.rest (boundValue go s.front name) t fun n u => Reads s [n] u ∧ u.rest <:+ t.rest := by
  have hwithin := ht.reads.follows.within hs
  have hsuffix := ht.reads.follows.rest
  have hfront := ((Reads.nothing t).front_of_taken hwithin.ordered ht.taken).2
  unfold boundValue
  rw [ends_upcoming]
  split
  · rename_i h
    refine ((ends_qualifiedName hwithin (kind_of_startsObject h)).of_suffix hsuffix).bind
      fun typeName u hu => ?_
    have hboth := ht.reads.append hu.reads
    refine ((ends_initializer hgo (hu.reads.follows.within hwithin)).of_suffix hboth.follows.rest).bind
      fun init v hv => ?_
    obtain ⟨hread,hbody,hstart⟩ := hv
    have htype := ((Reads.nothing u).front_of_taken (hu.reads.follows.order hwithin.ordered).1 hu.taken).2
    have htypeTaken := (hread.front_of_taken (hu.reads.follows.order hwithin.ordered).1 hu.taken).1
    have htaken := ((hu.reads.append hread).front_of_taken hwithin.ordered ht.taken).1
    have hspan := State.spanFrom_of_le (Nat.le_of_lt htaken)
    refine ⟨.layer _ _ (hboth.append hread) (.nothing v) ?_ trivial (.of_shaped trivial rfl rfl),
      hread.follows.rest.trans hu.reads.follows.rest⟩
    refine ⟨hspan,htaken,ht.joined,hu.joined,by omega,hbody,fun _ => ⟨ht.start,?_,?_,?_⟩⟩
    · exact hu.start ▸ hfront
    · exact hu.start ▸ Nat.lt_of_lt_of_le htype hstart
    · exact hu.start ▸ htypeTaken
  split
  · rename_i h
    refine ((ends_objectArray hgo hwithin h).of_suffix hsuffix).bind fun r u hu => ?_
    obtain ⟨members,brackets⟩ := r
    obtain ⟨hread,rfl,hclosed⟩ := hu
    have htaken : s.front ≤ u.previousStop := by omega
    have hbrackets := State.spanFrom_of_le (Nat.le_of_lt hclosed)
    refine ⟨.layer _ _ (ht.reads.append hread) (.nothing u) ?_ ?_ (.of_shaped trivial rfl rfl),
      hread.follows.rest⟩
    · rw [hbrackets]
      refine ⟨State.spanFrom_of_le htaken,Nat.le_of_lt hfront,hclosed,rfl,?_⟩
      exact (hread.row hwithin.ordered).start
    · exact ⟨ht.joined,ht.start,hfront⟩
  · refine ((script_opened hgo hwithin).of_suffix hsuffix).bind fun value u hu => ?_
    obtain ⟨hu,hopened⟩ := hu
    refine ⟨.layer _ _ (ht.reads.append hu) (.nothing u) ?_ trivial (.of_shaped hopened rfl rfl),
      hu.follows.rest⟩
    refine ⟨rfl,(hu.front_of_taken hwithin.ordered ht.taken).1,ht.joined,ht.start,?_⟩
    exact Nat.lt_of_lt_of_le hfront ((hu.row hwithin.ordered).start value (List.mem_singleton_self value))

/-- An object that is put on a property, after its type name. -/
lemma ends_onBinding {typeName : QualifiedName} (hs : s.Within m) (ht : ReadsName s typeName t)
    (hname : (t.ahead 1).kind = .name) :
    Ends s.rest (do
      discard bump
      let target ← qualifiedName
      let init ← initializer go
      finish (.objectBinding target typeName init true) s.front) t fun n u =>
        Reads s [n] u ∧ u.rest <:+ t.rest := by
  have hword := ht.reads.append (.token t)
  have hwithin := hword.follows.within hs
  have hordered := (ht.reads.follows.order hs.ordered).1
  have hfront := ((Reads.token t).front_of_taken hordered ht.taken).2
  rw [ends_skip]
  refine ((ends_qualifiedName hwithin (t.peek_advance ▸ hname)).of_suffix
    hword.follows.rest).bind fun target u hu => ?_
  have hboth := hword.append hu.reads
  refine ((ends_initializer hgo (hu.reads.follows.within hwithin)).of_suffix hboth.follows.rest).bind
    fun init v hv => ?_
  obtain ⟨hread,hbody,hstart⟩ := hv
  have hinit := (hu.reads.follows.order hwithin.ordered).2.2
  have hlater : Reads t [init] v := ((Reads.token t).append hu.reads).append hread
  have htaken := (hlater.front_of_taken hordered ht.taken).1
  refine ⟨.layer _ _ (hboth.append hread) (.nothing v) ?_ trivial (.of_shaped trivial rfl rfl),
    hlater.follows.rest⟩
  exact ⟨State.spanFrom_of_le (Nat.le_of_lt htaken),htaken,hu.joined,ht.joined,by omega,hbody,by simp⟩

lemma ends_bindingMember (hs : s.Within m) (hname : s.peek.kind = .name) :
    Ends s.rest (bindingMember go) s fun n t => Reads s [n] t := by
  unfold bindingMember
  rw [ends_start]
  refine (ends_qualifiedName hs hname).bind fun name t ht => ?_
  have hwithin := ht.reads.follows.within hs
  rw [ends_atName,ends_ahead]
  split
  · rename_i h
    simp only [Bool.and_eq_true,beq_iff_eq] at h
    exact (ends_onBinding hgo hs ht h.2).mono fun n u hu => hu.1
  rw [ends_atPunct]
  split
  · exact (ends_objectLayer hgo hs ht).mono fun n u hu => hu.1
  · refine ((reading_expectPunct ":").after hs ht.reads).bind fun colon u hu => ?_
    have hread : Reads s [] u := ht.reads.append hu
    have htaken := (hu.front_of_taken hwithin.ordered ht.taken).1
    split
    · exact (ends_boundValue hgo hs ⟨hread,ht.joined,ht.start,htaken⟩).mono fun n v hv => hv.1
    · have h : Resumes m s [] (finish .error s.front) nodes := resumes_finish rfl rfl
      exact (h hs u hread).mono fun n v hv => hv.1

omit hgo in
lemma ends_sourceElement {element : Parser Node} (h : Ends s.rest element s fun n t => Reads s [n] t) :
    Ends s.rest (sourceElement element) s fun n t => Reads s [n] t :=
  h.bind fun _ t ht => .layer _ _ ht (.nothing t) rfl trivial (.of_shaped trivial rfl rfl)

lemma ends_namedMember (hs : s.Within m) (hname : s.peek.kind = .name) (t next afterNext : Token) :
    Ends s.rest (namedMember go t next afterNext) s fun n u => Reads s [n] u := by
  have hne := State.rest_ne_nil hs.eof (by simp [hname])
  unfold namedMember
  split
  · exact reading_publicMember hgo s hs
  split
  · exact reading_signalMember s hs
  split
  · exact reading_enumDeclaration s hs
  split
  · exact ends_sourceElement (ends_functionDeclaration hgo hs hne)
  split
  · exact ends_sourceElement (ends_functionDeclaration hgo hs hne)
  split
  · exact ends_sourceElement (reading_variableStatement hgo s hs)
  · exact ends_bindingMember hgo hs hname

lemma reading_objectMember : Reading m (objectMember go) := by
  intro s hs
  unfold objectMember
  rw [ends_peek]
  split
  · rename_i h
    rw [beq_iff_eq] at h
    rw [ends_ahead,ends_ahead]
    exact (ends_namedMember hgo hs h _ _ _).bind fun n t ht => ht
  · exact .complaint s s.front .expectedObjectMember

lemma reading_members : Reading m
    (collectUntil (·.isPunct "\x7d") (everyRound (objectMember go))) :=
  reading_collectUntil (reading_everyRound (reading_objectMember hgo)) fun _ hs hrest =>
    everyRound_takes (reading_objectMember hgo) hs hrest

lemma reading_readInitializer : Reading m (readInitializer go) := by
  refine reading_start fun s => (reading_punct "\x7b").resumes_bind fun _ => ?_
  refine (reading_members hgo).resumes_bind fun members => ?_
  exact (reading_punct "\x7d").resumes_bind fun _ => resumes_finish (by simp [Kind.children]) rfl

/-- What is read in braces are the members of an object. -/
lemma readInitializer_body (hs : s.Within m) :
    Ends s.rest (readInitializer go) s fun n _ => n.kind.isBody := by
  unfold readInitializer
  rw [ends_start]
  refine (reading_punct "\x7b" s hs).bind fun _ t ht => ?_
  refine ((reading_members hgo).after hs ht).bind fun members u hu => ?_
  exact ((reading_punct "\x7d").after hs (ht.append hu)).bind fun _ v _ => rfl

end

end QmlCodeModel.Grammar
