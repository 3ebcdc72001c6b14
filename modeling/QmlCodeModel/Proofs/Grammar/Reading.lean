import QmlCodeModel.Proofs.Grammar.Reads

/-! Parts of the grammar as readings. A part is a `Reading` if it comes to an answer by steps of `Reads`,
or else to a stalled state; what it reads are the nodes in its answer. The rules below follow the way in
which parts are put together. -/
namespace QmlCodeModel.Grammar

/-- The nodes in an answer, in the order in which they were read. -/
class Bears (α : Type) where
  nodes : α → List Node

export Bears (nodes)

/-- Answers without nodes. -/
class Silent (α : Type)

section

variable {α β : Type}

instance [Silent α] : Bears α := ⟨fun _ => []⟩
instance : Bears Node := ⟨fun n => [n]⟩
instance [Bears α] : Bears (Option α) := ⟨fun o => o.toList.flatMap nodes⟩
instance [Bears α] : Bears (List α) := ⟨fun l => l.flatMap nodes⟩
instance [Bears α] [Bears β] : Bears (α × β) := ⟨fun p => nodes p.1 ++ nodes p.2⟩
instance [Bears α] : Bears (Round α) := ⟨fun r => nodes r.items⟩
instance : Bears (BindingTarget Node) := ⟨BindingTarget.children⟩
instance : Bears (FormalParameter Node) := ⟨FormalParameter.children⟩
instance : Bears (FunctionParts Node) := ⟨FunctionParts.children⟩
instance : Bears (ClassParts Node) := ⟨ClassParts.children⟩
instance : Bears (PropertyKey Node) := ⟨PropertyKey.children⟩
instance : Bears FirstValue := ⟨fun v => v.statement.toList ++ v.binding.toList⟩

instance : Silent Unit where
instance : Silent Bool where
instance : Silent Nat where
instance : Silent String where
instance : Silent Double where
instance : Silent Span where
instance : Silent Token where
instance : Silent Ident where
instance : Silent QualifiedName where
instance : Silent LineColumn where
instance : Silent ImportTarget where
instance : Silent SignalParameter where
instance : Silent EnumMember where
instance : Silent VariableKind where
instance : Silent ForEachKind where
instance : Silent MemberModifiers where
instance : Silent PropertyModifiers where
instance : Silent State where

@[simp] lemma nodes_silent [Silent α] (a : α) : nodes a = [] := rfl
@[simp] lemma nodes_node (n : Node) : nodes n = [n] := rfl
@[simp] lemma nodes_none [Bears α] : nodes (none : Option α) = [] := rfl
@[simp] lemma nodes_some [Bears α] (a : α) : nodes (some a) = nodes a := by simp [nodes]
@[simp] lemma nodes_nil [Bears α] : nodes ([] : List α) = [] := rfl
@[simp] lemma nodes_cons [Bears α] (a : α) (l : List α) : nodes (a :: l) = nodes a ++ nodes l := rfl
@[simp] lemma nodes_append [Bears α] (l l' : List α) : nodes (l ++ l') = nodes l ++ nodes l' := by
  simp [nodes]
@[simp] lemma nodes_pair [Bears α] [Bears β] (a : α) (b : β) : nodes (a, b) = nodes a ++ nodes b := rfl
@[simp] lemma nodes_round [Bears α] (items : List α) (more : Bool) :
    nodes (Round.mk items more) = nodes items := rfl
@[simp] lemma nodes_options (o : Option Node) : nodes o = o.toList := by cases o <;> rfl
@[simp] lemma nodes_nodes (l : List Node) : nodes l = l := by
  induction l with
  | nil => rfl
  | cons n l ih => rw [nodes_cons,ih]; rfl
@[simp] lemma nodes_silentOption [Silent α] (o : Option α) : nodes o = [] := by cases o <;> rfl
@[simp] lemma nodes_silentList [Silent α] (l : List α) : nodes l = [] := by
  induction l with
  | nil => rfl
  | cons a l ih => rw [nodes_cons,ih]; rfl

end

/-- From this state a part comes to an answer and a state with a property, or else it stalls before one
of these tokens. -/
def Ends {α : Type} (tokens : List Token) (p : Parser α) (s : State) (post : α → State → Prop) : Prop :=
  match p s with
  | .ok (a, t) => post a t
  | .error e => e.Stalled ∧ e.peek ∈ tokens

section

variable {α β : Type} {tokens : List Token} {p : Parser α} {k : α → Parser β} {s : State}

lemma Ends.of_ok {post : α → State → Prop} {a : α} {t : State} (h : Ends tokens p s post)
    (hp : p s = .ok (a, t)) : post a t := by
  unfold Ends at h
  rwa [hp] at h

lemma Ends.of_error {post : α → State → Prop} {e : State} (h : Ends tokens p s post)
    (hp : p s = .error e) : e.Stalled ∧ e.peek ∈ tokens := by
  unfold Ends at h
  rwa [hp] at h

lemma Ends.mono {post post' : α → State → Prop} (h : Ends tokens p s post)
    (hp : ∀ a t, post a t → post' a t) : Ends tokens p s post' := by
  unfold Ends at *
  split
  · rename_i heq
    rw [heq] at h
    exact hp _ _ h
  · rename_i heq
    rw [heq] at h
    exact h

lemma Ends.of_suffix {post : α → State → Prop} {tokens' : List Token} (h : Ends tokens p s post)
    (hsuffix : tokens <:+ tokens') : Ends tokens' p s post := by
  unfold Ends at *
  split
  · rename_i heq
    rwa [heq] at h
  · rename_i heq
    rw [heq] at h
    exact ⟨h.1,hsuffix.subset h.2⟩

lemma Ends.and {post post' : α → State → Prop} (h : Ends tokens p s post)
    (h' : Ends tokens p s post') : Ends tokens p s fun a t => post a t ∧ post' a t := by
  unfold Ends at *
  split
  · rename_i heq
    rw [heq] at h h'
    exact ⟨h,h'⟩
  · rename_i heq
    rwa [heq] at h

lemma ends_bind {post : β → State → Prop} :
    Ends tokens (p >>= k) s post ↔ Ends tokens p s fun a t => Ends tokens (k a) t post := by
  unfold Ends
  simp only [bind,StateT.bind,Except.bind]
  cases p s <;> rfl

/-- A part with a known answer. -/
lemma ends_known {a : α} {t : State} {post : β → State → Prop} (h : p s = .ok (a,t)) :
    Ends tokens (p >>= k) s post ↔ Ends tokens (k a) t post := by
  rw [ends_bind,Ends,h]

/-- A part, and what follows from its answer. -/
lemma Ends.bind {post : α → State → Prop} {post' : β → State → Prop} (h : Ends tokens p s post)
    (hk : ∀ a t, post a t → Ends tokens (k a) t post') : Ends tokens (p >>= k) s post' :=
  ends_bind.mpr (h.mono hk)

lemma ends_pure {a : α} {post : α → State → Prop} : Ends tokens (pure a) s post ↔ post a s := Iff.rfl

lemma ends_get {k : State → Parser β} {post : β → State → Prop} :
    Ends tokens (get >>= k) s post ↔ Ends tokens (k s) s post := Iff.rfl

lemma ends_modify {f : State → State} {k : Unit → Parser β} {post : β → State → Prop} :
    Ends tokens (modify f >>= k) s post ↔ Ends tokens (k ()) (f s) post := Iff.rfl

lemma ends_peek {k : Token → Parser β} {post : β → State → Prop} :
    Ends tokens (peek >>= k) s post ↔ Ends tokens (k s.peek) s post := Iff.rfl

lemma ends_ahead {n : Nat} {k : Token → Parser β} {post : β → State → Prop} :
    Ends tokens (ahead n >>= k) s post ↔ Ends tokens (k (s.ahead n)) s post := Iff.rfl

lemma ends_atPunct {text : String} {k : Bool → Parser β} {post : β → State → Prop} :
    Ends tokens (atPunct text >>= k) s post ↔ Ends tokens (k (s.peek.isPunct text)) s post := Iff.rfl

lemma ends_atName {text : String} {k : Bool → Parser β} {post : β → State → Prop} :
    Ends tokens (atName text >>= k) s post ↔ Ends tokens (k (s.peek.isName text)) s post := Iff.rfl

lemma ends_start {k : Nat → Parser β} {post : β → State → Prop} :
    Ends tokens (start >>= k) s post ↔ Ends tokens (k s.front) s post := Iff.rfl

lemma ends_skip {k : Unit → Parser β} {post : β → State → Prop} :
    Ends tokens (discard bump >>= k) s post ↔ Ends tokens (k ()) s.advance post := Iff.rfl

lemma ends_upcoming {k : List Token → Parser β} {post : β → State → Prop} :
    Ends tokens (upcoming >>= k) s post ↔ Ends tokens (k s.rest) s post := Iff.rfl

lemma ends_map {f : α → β} {post : β → State → Prop} :
    Ends tokens (f <$> p) s post ↔ Ends tokens p s fun a t => post (f a) t := by
  rw [← bind_pure_comp,ends_bind]
  rfl

end

section

variable {α β : Type} {m : Nat} {s : State} {xs : List Node}

/-- A part goes on with a reading that began at `s` and has read `xs` by now. -/
def Resumes (m : Nat) (s : State) (xs : List Node) (p : Parser α) (f : α → List Node) : Prop :=
  s.Within m → ∀ t, Reads s xs t → Ends s.rest p t fun a u => Reads s (f a) u ∧ u.rest <:+ t.rest

/-- A part reads the nodes in its answer, if so many levels are left. -/
def Reading (m : Nat) [Bears α] (p : Parser α) : Prop :=
  ∀ s, s.Within m → Ends s.rest p s fun a t => Reads s (nodes a) t

variable {p : Parser α} {k : α → Parser β} {f : β → List Node} {g : α → List Node}

lemma reading_of_resumes [Bears α] (h : ∀ s, Resumes m s [] p nodes) : Reading m p :=
  fun s hs => (h s hs s (.nothing s)).mono fun _ _ ht => ht.1

lemma Reading.resumes [Bears α] (h : Reading m p) : Resumes m s xs p fun a => xs ++ nodes a := by
  intro hs t ht
  have hp := (h t (ht.follows.within hs)).of_suffix ht.follows.rest
  exact hp.mono fun _ _ hu => ⟨ht.append hu,hu.follows.rest⟩

/-- A part that goes on with a reading, from where it has come to. -/
lemma Reading.after [Bears α] {t : State} (h : Reading m p) (hs : s.Within m) (ht : Reads s xs t) :
    Ends s.rest p t fun a u => Reads t (nodes a) u :=
  (h t (ht.follows.within hs)).of_suffix ht.follows.rest

/-- A part that looks at the state only. -/
lemma reading_look [Silent α] (h : ∀ s, ∃ a, p s = .ok (a, s)) : Reading m p := by
  intro s _
  obtain ⟨a,ha⟩ := h s
  unfold Ends
  rw [ha]
  exact .nothing s

/-- A part that takes one step without a node. -/
lemma reading_step [Silent α] (h : ∀ s, ∃ a t, p s = .ok (a, t) ∧ Reads s [] t) : Reading m p := by
  intro s _
  obtain ⟨a,t,ha,ht⟩ := h s
  unfold Ends
  rw [ha]
  exact ht

lemma resumes_pure {a : α} (h : g a = xs) : Resumes m s xs (pure a) g := by
  intro _ t ht
  rw [ends_pure,h]
  exact ⟨ht,List.suffix_rfl⟩

lemma resumes_bind (hp : Resumes m s xs p g) (hk : ∀ a, Resumes m s (g a) (k a) f) :
    Resumes m s xs (p >>= k) f := by
  intro hs t ht
  rw [ends_bind]
  refine (hp hs t ht).mono fun a u hu => ?_
  exact (hk a hs u hu.1).mono fun _ _ hv => ⟨hv.1,hv.2.trans hu.2⟩

/-- A part, and what follows it with the nodes of both. -/
lemma Reading.resumes_bind [Bears α] (hp : Reading m p)
    (hk : ∀ a, Resumes m s (xs ++ nodes a) (k a) f) : Resumes m s xs (p >>= k) f :=
  Grammar.resumes_bind hp.resumes hk

lemma resumes_map {h : α → β} (hp : Resumes m s xs p fun a => f (h a)) :
    Resumes m s xs (h <$> p) f := by
  intro hs t ht
  rw [ends_map]
  exact hp hs t ht

lemma Resumes.congr (hp : Resumes m s xs p g) {g' : α → List Node} (h : ∀ a, g a = g' a) :
    Resumes m s xs p g' := by
  rwa [← funext h]

lemma resumes_ite {c : Prop} [Decidable c] {q : Parser α} (hp : c → Resumes m s xs p g)
    (hq : ¬c → Resumes m s xs q g) : Resumes m s xs (if c then p else q) g := by
  split
  · exact hp ‹_›
  · exact hq ‹_›

/-- A part that notes where it starts. -/
lemma reading_start {k : Nat → Parser β} [Bears β] (h : ∀ s, Resumes m s [] (k s.front) nodes) :
    Reading m (start >>= k) := fun s hs => (h s hs s (.nothing s)).mono fun _ _ ht => ht.1

/-- A layer of which it is known what it owes to its tokens. -/
lemma resumes_layer {kind : Kind Node} (h : kind.children = xs) (formed : ∀ span, kind.Formed s.rest span)
    (placed : ∀ last, kind.Placed s.front last ⟨s.front, max last s.front⟩) (named : ∀ span, kind.Named span) :
    Resumes m s xs (finish kind s.front) nodes := by
  intro _ t ht
  subst h
  exact ⟨.layer kind _ ht (.nothing t) (placed _) (named _) (formed _),List.suffix_rfl⟩

lemma resumes_finish {kind : Kind Node} (h : kind.children = xs) (plain : kind.isPlain) :
    Resumes m s xs (finish kind s.front) nodes :=
  resumes_layer h (fun _ => Kind.formed_of_isPlain plain) (Kind.placed_of_isPlain plain s.front)
    (Kind.named_of_isPlain plain)

/-- A part goes on with a reading, and takes a token if one comes next. -/
def Takes (m : Nat) (s : State) (xs : List Node) (p : Parser α) (f : α → List Node) : Prop :=
  s.Within m → ∀ t, Reads s xs t → t.peek.kind ≠ .eof →
    Ends s.rest p t fun a u =>
      Reads s (f a) u ∧ u.rest <:+ t.rest ∧ u.rest.length < t.rest.length

lemma takes_bind (hp : Takes m s xs p g) (hk : ∀ a, Resumes m s (g a) (k a) f) :
    Takes m s xs (p >>= k) f := by
  intro hs t ht hkind
  rw [ends_bind]
  refine (hp hs t ht hkind).mono fun a u hu => ?_
  refine (hk a hs u hu.1).mono fun _ _ hv => ?_
  exact ⟨hv.1,hv.2.trans hu.2.1,Nat.lt_of_le_of_lt hv.2.length_le hu.2.2⟩

/-- Nothing but a look comes before a part that takes a token. -/
lemma takes_look (h : ∀ s, ∃ a, p s = .ok (a, s)) (hk : ∀ a, Takes m s xs (k a) f) :
    Takes m s xs (p >>= k) f := by
  intro hs t ht hkind
  obtain ⟨a,ha⟩ := h t
  rw [ends_bind]
  unfold Ends
  rw [ha]
  exact hk a hs t ht hkind

end

end QmlCodeModel.Grammar
