import QmlCodeModel.Proofs.Grammar.Clean.Source
import QmlCodeModel.Proofs.Grammar.Numbering

/-! The spans of a source without an error. Every node has tokens: it starts where one of them starts and
ends where one of them ends, and it holds its children side by side in their order. With or without an error, every
layer of the tree is formed of the tokens of the source. -/
namespace QmlCodeModel

lemma Kind.children_declared {m : PublicMember Node} (h : m.statement = none) (array : Node) :
    (Kind.publicMember { m with binding := some array }).children = [array] := by
  simp [children,h]

namespace Node

/-- The children of a node lie in its span, each behind the one before it. -/
structure Nests (n : Node) : Prop where
  inside : ∀ c ∈ n.children, n.span.start ≤ c.span.start ∧ c.span.stop ≤ n.span.stop
  apart : n.children.Pairwise fun c d => c.span.stop ≤ d.span.start

/-- A node from the start of one of these tokens to the end of one of them. -/
def Framed (tokens : List Token) (n : Node) : Prop :=
  ∃ first ∈ tokens, ∃ last ∈ tokens, n.span = ⟨first.span.start, last.span.stop⟩

/-- A node for something that was read, and not for a whole source. -/
structure Proper (n : Node) : Prop where
  read : n.kind ≠ .error
  part : n.kind.isWhole = false
  filled : n.Filled

/-- No node is empty, at and below this one. -/
def Solid (n : Node) : Prop := ∀ x ∈ n.walk, x.span.start < x.span.stop

lemma Solid.lt {n : Node} (h : n.Solid) : n.span.start < n.span.stop := h n n.mem_walk_self

lemma Solid.child {n c : Node} (h : n.Solid) (hc : c ∈ n.children) : c.Solid :=
  fun x hx => h x (mem_walk_of_mem_children hc hx)

lemma Solid.of_mem_walk {n x : Node} (h : n.Solid) (hx : x ∈ n.walk) : x.Solid :=
  fun y hy => h y (mem_walk_trans hx hy)

lemma Solid.of_children {n : Node} (h : n.span.start < n.span.stop) (hc : ∀ c ∈ n.children, c.Solid) :
    n.Solid := by
  intro x hx
  rw [walk_eq] at hx
  obtain rfl | hx := List.mem_cons.mp hx
  · exact h
  · obtain ⟨c,hmem,hx⟩ := List.mem_flatMap.mp hx
    exact hc c hmem x hx

namespace Sound

variable {n : Node} {last : Nat}

/-- A node without empty nodes ends with its tokens. -/
lemma stop_le (h : n.Sound) (hsolid : n.Solid) (ht : n.Tight last) : n.span.stop ≤ last := by
  induction h with
  | @mk id span kind front end' placed le start tight apart named sound ih =>
    have hchild : ∀ c ∈ kind.children, c.Solid := fun c hc => hsolid.child hc
    obtain ⟨name,x,rfl,rfl,-⟩ | ⟨x,rfl,rfl⟩ | ⟨hscript,helement,-⟩ := placed.trichotomy
    · have hx : x ∈ (Kind.scriptBinding name x).children := by simp [Kind.children]
      exact ih x hx (hchild x hx) (tight_script.mp ht).2
    · have hx : x ∈ (Kind.sourceElement x).children := by simp [Kind.children]
      exact ih x hx (hchild x hx) (tight_element.mp ht)
    · exact (tight_span hscript helement).mp ht hsolid.lt

/-- A layer nests if nothing below it is empty. -/
lemma nests (h : n.Sound) (hsolid : ∀ c ∈ n.children, c.Solid) : n.Nests := by
  cases h with
  | @mk id span kind front end' placed le start tight apart named sound =>
    refine ⟨fun c hc => ?_,apart.imp fun h => h.stop_le⟩
    change span.start ≤ c.span.start ∧ c.span.stop ≤ span.stop
    have hstart := start c hc
    have hstop := (sound c hc).stop_le (hsolid c hc) (tight c hc)
    obtain ⟨name,x,rfl,rfl,-⟩ | ⟨x,rfl,rfl⟩ | ⟨-,-,rfl⟩ := placed.trichotomy
    · obtain rfl : c = x := by simpa [children,kind,Kind.children] using hc
      exact ⟨hstart,Nat.le_refl _⟩
    · obtain rfl : c = x := by simpa [children,kind,Kind.children] using hc
      exact ⟨Nat.le_refl _,Nat.le_refl _⟩
    · exact ⟨hstart,Nat.le_trans hstop (Nat.le_max_left _ _)⟩

end Sound

end Node

/-- A layer without parts that is not filled by itself is known to have tokens where it stands. -/
lemma Kind.Placed.lt_of_isFrame {kind : Kind Node} {front last : Nat} {span : Span}
    (h : kind.Placed front last span) (hframe : kind.isFrame) (hread : kind ≠ .error)
    (hpart : kind.isWhole = false) : front < last := by
  cases kind
  case arrayBinding name members brackets =>
    obtain ⟨-,hopen,hclose,hlast,-⟩ := h
    omega
  case publicMember m =>
    obtain ⟨hstart,hname,-⟩ := h.2 (by simpa [isFrame] using hframe)
    omega
  case error => exact absurd rfl hread
  all_goals first | exact absurd hframe Bool.false_ne_true | cases hpart

namespace Node.Sound

/-- Where all nodes are proper, none is empty: a node has tokens of its own or a child that has some. -/
lemma solid {n : Node} (h : n.Sound) (hproper : ∀ x ∈ n.walk, x.Proper) : n.Solid := by
  induction h with
  | @mk id span kind front last placed le start tight apart named sound ih =>
    have hchild : ∀ c ∈ kind.children, c.Solid := fun c hc =>
      ih c hc fun x hx => hproper x (mem_walk_of_mem_children hc hx)
    have hself := hproper _ (mem_walk_self _)
    refine .of_children ?_ hchild
    change span.start < span.stop
    by_cases hnone : kind.children = []
    · cases hframe : kind.isFrame with
      | false => exact hself.filled hnone hframe
      | true =>
        have hlt := placed.lt_of_isFrame hframe hself.read hself.part
        obtain ⟨name,x,rfl,-⟩ | ⟨x,rfl,-⟩ | ⟨-,-,rfl⟩ := placed.trichotomy
        · exact absurd hnone (by simp [Kind.children])
        · exact absurd hnone (by simp [Kind.children])
        · exact Nat.lt_of_lt_of_le hlt (Nat.le_max_left _ _)
    · obtain ⟨c,hc⟩ := List.exists_mem_of_ne_nil _ hnone
      have hsound : (Node.mk id span kind).Sound := .mk front last placed le start tight apart named sound
      have hinside := (hsound.nests hchild).inside c hc
      have hlt := (hchild c hc).lt
      simp only [Node.span] at hinside hlt ⊢
      omega

end Node.Sound

namespace Grammar

variable {s t : State} {xs : List Node} {tokens : List Token}

/-- Every node made hangs in the tree of what was read. -/
theorem Reads.mem_nodes (h : Reads s xs t) : ∀ n ∈ t.nodes, n ∈ s.nodes ∨ n ∈ xs.flatMap Node.walk := by
  have layer {s t : State} {kind : Kind Node} {span : Span}
      (h : ∀ n ∈ t.nodes, n ∈ s.nodes ∨ n ∈ kind.children.flatMap Node.walk) :
      ∀ n ∈ (t.make span kind).2.nodes, n ∈ s.nodes ∨ n ∈ [(t.make span kind).1].flatMap Node.walk := by
    intro n hn
    rw [List.flatMap_singleton,Node.walk_eq]
    obtain hn | rfl := Array.mem_push.mp hn
    · exact (h n hn).imp_right (List.mem_cons_of_mem _)
    · exact .inr List.mem_cons_self
  induction h with
  | nothing s => exact fun _ => .inl
  | append _ _ ih ih' =>
    intro n hn
    rw [List.flatMap_append,List.mem_append]
    obtain hn | hn := ih' n hn
    · exact (ih n hn).imp_right .inl
    · exact .inr (.inr hn)
  | token s =>
    rw [s.nodes_advance]
    exact fun _ => .inl
  | complaint s offset fault =>
    rw [s.nodes_report]
    exact fun _ => .inl
  | directive s d => exact fun _ => .inl
  | skip s => exact fun _ => .inl
  | missing s => exact layer fun _ => .inl
  | layer kind span _ _ _ _ _ ih ih' =>
    refine layer fun n hn => ?_
    obtain hn | hn := ih' n hn
    · exact ih n hn
    · cases hn
  | @declaredArray s t u members m array _ _ statement _ _ _ made ih ih' =>
    subst made
    refine layer fun n hn => ?_
    have hmembers : ∀ n ∈ u.nodes, n ∈ s.nodes ∨ n ∈ members.flatMap Node.walk := by
      intro n hn
      obtain hn | hn := ih' n hn
      · exact (ih n hn).imp_right nofun
      · exact .inr hn
    rw [Kind.children_declared statement]
    exact layer hmembers n hn
  | inside _ _ _ _ ih => exact ih
  | deeper _ _ ih => exact ih

/-- No whole source hangs below anything that was read. -/
lemma Reads.isWhole (h : Reads s xs t) : ∀ n ∈ xs.flatMap Node.walk, n.kind.isWhole = false := by
  induction h with
  | nothing | token | complaint | directive | skip => simp
  | append _ _ ih ih' =>
    intro n hn
    rw [List.flatMap_append] at hn
    exact (List.mem_append.mp hn).elim (ih n) (ih' n)
  | missing s => exact Node.forall_walk rfl nofun
  | layer kind span _ _ _ named _ ih => exact Node.forall_walk named.isWhole ih
  | declaredArray m array _ _ statement _ _ _ made _ ih =>
    refine Node.forall_walk rfl ?_
    change ∀ n ∈ (Kind.publicMember _).children.flatMap Node.walk, _
    rw [Kind.children_declared statement]
    subst made
    exact Node.forall_walk rfl ih
  | inside _ _ _ _ ih => exact ih
  | deeper _ _ ih => exact ih

/-- The tokens to come are among these, and so is the last one taken. -/
structure State.Amid (tokens : List Token) (s : State) : Prop where
  rest : s.rest ⊆ tokens
  last : s.previousStop = 0 ∨ ∃ x ∈ tokens, x.span.stop = s.previousStop

namespace State.Amid

lemma report (h : s.Amid tokens) (offset : Nat) (fault : GrammarFault) :
    (s.report offset fault).Amid tokens := by
  unfold State.report
  split
  · exact h
  · exact ⟨h.rest,h.last⟩

lemma start (h : s.Amid tokens) (hs : s.Ordered) (hfollows : s.Follows t) (hlt : s.front < t.previousStop) :
    ∃ x ∈ tokens, x.span.start = s.front := by
  cases hrest : s.rest with
  | nil =>
    have hle := (hfollows.order hs).1.le
    rw [hfollows.eof] at hle
    have hfront : s.front = s.eof.span.start := by simp [State.front,State.peek,hrest]
    omega
  | cons x rest => exact ⟨x,h.rest (hrest ▸ List.mem_cons_self),by simp [State.front,State.peek,hrest]⟩

lemma framed (h : s.Amid tokens) (h' : t.Amid tokens) (hs : s.Ordered) (hfollows : s.Follows t)
    (hlt : s.front < t.previousStop) {n : Node} (hn : n.span = t.spanFrom s.front) :
    n.Framed tokens := by
  have hmax : max t.previousStop s.front = t.previousStop := Nat.max_eq_left (Nat.le_of_lt hlt)
  rw [State.spanFrom,hmax] at hn
  obtain ⟨first,hfirst,hstart⟩ := h.start hs hfollows hlt
  obtain hzero | ⟨last,hlast,hstop⟩ := h'.last
  · omega
  · exact ⟨first,hfirst,last,hlast,by rw [hn,hstart,hstop]⟩

end State.Amid

theorem Reads.amid (h : Reads s xs t) (hs : s.Amid tokens) : t.Amid tokens := by
  induction h with
  | append _ _ ih ih' => exact ih' (ih hs)
  | token s =>
    unfold State.advance
    split
    · exact hs
    · rename_i x rest hrest
      have hrest : x :: rest ⊆ tokens := hrest ▸ hs.rest
      exact ⟨fun y hy => hrest (List.mem_cons_of_mem _ hy),.inr ⟨x,hrest List.mem_cons_self,rfl⟩⟩
  | complaint s offset fault => exact hs.report offset fault
  | skip s => exact ⟨List.nil_subset _,hs.last⟩
  | nothing | directive | missing => exact ⟨hs.rest,hs.last⟩
  | layer _ _ _ _ _ _ _ ih ih' => exact ⟨(ih' (ih hs)).rest,(ih' (ih hs)).last⟩
  | declaredArray _ _ _ _ _ _ _ _ made ih ih' =>
    subst made
    exact ⟨(ih' (ih hs)).rest,(ih' (ih hs)).last⟩
  | inside _ _ _ _ ih =>
    have ht := ih ⟨hs.rest,hs.last⟩
    exact ⟨ht.rest,ht.last⟩
  | deeper _ _ ih =>
    have ht := ih ⟨hs.rest,hs.last⟩
    exact ⟨ht.rest,ht.last⟩

/-- Where no node is empty, each stands between the tokens where its reading started and ended. -/
theorem Reads.framed (h : Reads s xs t) (hordered : s.Ordered) (hs : s.Amid tokens)
    (hsolid : ∀ x ∈ xs, x.Solid) : ∀ n ∈ xs.flatMap Node.walk, n.Framed tokens := by
  induction h with
  | nothing | token | complaint | directive | skip => simp
  | append h h' ih ih' =>
    intro n hn
    rw [List.flatMap_append] at hn
    obtain hn | hn := List.mem_append.mp hn
    · exact ih hordered hs (fun x hx => hsolid x (List.mem_append_left _ hx)) n hn
    · have ht := (h.follows.order hordered).1
      exact ih' ht (h.amid hs) (fun x hx => hsolid x (List.mem_append_right _ hx)) n hn
  | missing s =>
    -- what stands for something missing is empty
    exact absurd (hsolid _ List.mem_cons_self).lt (Nat.lt_irrefl _)
  | @layer s t u kind span h h' placed named _ ih ih' =>
    have hself := hsolid _ List.mem_cons_self
    have hchildren := ih hordered hs fun c hc => hself.child hc
    refine Node.forall_walk ?_ hchildren
    have hpart {x : Node} (hx : x ∈ kind.children) : x.Framed tokens :=
      hchildren x (List.mem_flatMap.mpr ⟨x,hx,x.mem_walk_self⟩)
    obtain ⟨name,x,rfl,rfl,hlt,-⟩ | ⟨x,rfl,rfl⟩ | ⟨-,-,rfl⟩ := placed.trichotomy
    · obtain ⟨first,hfirst,hstart⟩ := hs.start hordered h.follows hlt
      obtain ⟨_,_,last,hlast,hx⟩ := @hpart x (by simp [Kind.children])
      refine ⟨first,hfirst,last,hlast,?_⟩
      rw [hstart]
      exact congrArg (fun span => Span.mk s.front span.stop) hx
    · exact @hpart x (by simp [Kind.children])
    · have hlt : s.front < t.previousStop := by
        have hlt : s.front < max t.previousStop s.front := hself.lt
        omega
      exact hs.framed (h.amid hs) hordered h.follows hlt rfl
  | @declaredArray s t u members m array h h' statement name lt closed made ih ih' =>
    have ht := (h.follows.order hordered).1
    have hu := h'.amid (h.amid hs)
    have hchild := Kind.children_declared statement array.1
    have hinner : array.1.Solid :=
      (hsolid _ List.mem_cons_self).child (hchild.symm ▸ List.mem_singleton_self array.1 :)
    subst made
    have hlt : s.front < u.previousStop := by omega
    refine Node.forall_walk (hs.framed hu hordered (h.follows.trans h'.follows) hlt rfl) ?_
    change ∀ n ∈ (Kind.publicMember _).children.flatMap Node.walk, _
    rw [hchild]
    refine Node.forall_walk ?_ (ih' ht (h.amid hs) fun c hc => hinner.child hc)
    exact (h.amid hs).framed hu ht h'.follows closed rfl
  | inside _ _ _ _ ih => exact ih hordered ⟨hs.rest,hs.last⟩ hsolid
  | deeper _ _ ih => exact ih hordered ⟨hs.rest,hs.last⟩ hsolid

/-- What has been read without an error nests, and none of it is empty. -/
lemma Reads.nested (h : Reads s xs t) (hs : s.Ordered) (hamid : s.Amid tokens)
    (hread : ∀ n ∈ t.nodes, n.kind ≠ .error ∧ n.Filled) :
    (∀ x ∈ xs, x.Solid) ∧ ∀ n ∈ xs.flatMap Node.walk, n.Nests ∧ n.Framed tokens := by
  have hsound := (h.row hs).sound
  have hproper : ∀ n ∈ xs.flatMap Node.walk, n.Proper := by
    intro n hn
    obtain ⟨hread,hfilled⟩ := hread n (Array.mem_of_getElem? (h.numbered.stored n hn).2)
    exact ⟨hread,h.isWhole n hn,hfilled⟩
  have hsolid : ∀ x ∈ xs, x.Solid := fun x hx =>
    (hsound x hx).solid fun n hn => hproper n (List.mem_flatMap.mpr ⟨x,hx,hn⟩)
  refine ⟨hsolid,fun n hn => ⟨?_,h.framed hs hamid hsolid n hn⟩⟩
  obtain ⟨x,hx,hn⟩ := List.mem_flatMap.mp hn
  exact ((hsound x hx).of_mem_walk hn).nests fun c hc => ((hsolid x hx).of_mem_walk hn).child hc

/-- Below a root, and over all that was read if it is the root of a whole source. -/
lemma Roots.nested {whole : Span} {form : SourceForm} {root : Node} (h : Roots whole s form root t)
    (hs : s.Ordered) (hamid : s.Amid tokens) (hsound : root.Sound)
    (hread : ∀ n ∈ t.nodes, n.kind ≠ .error ∧ n.Filled) :
    ∀ n ∈ root.walk, n.Nests ∧ (¬(n = root ∧ n.kind.isWhole) → n.Framed tokens) := by
  have layer {u : State} {kind : Kind Node} (h : Reads s kind.children u) (hwhole : kind.isWhole)
      (hsound : (u.make whole kind).1.Sound)
      (hread : ∀ n ∈ (u.make whole kind).2.nodes, n.kind ≠ .error ∧ n.Filled) :
      ∀ n ∈ (u.make whole kind).1.walk, n.Nests ∧
        (¬(n = (u.make whole kind).1 ∧ n.kind.isWhole) → n.Framed tokens) := by
    obtain ⟨hsolid,hnested⟩ := h.nested hs hamid fun n hn => hread n (Array.mem_push_of_mem _ hn)
    intro n hn
    rw [Node.walk_eq] at hn
    obtain rfl | hn := List.mem_cons.mp hn
    · exact ⟨hsound.nests hsolid,fun hother => absurd ⟨rfl,hwhole⟩ hother⟩
    · exact ⟨(hnested n hn).1,fun _ => (hnested n hn).2⟩
  cases h with
  | document h => exact layer h rfl hsound hread
  | program h => exact layer h rfl hsound hread
  | expression h =>
    intro n hn
    have hnested := (h.nested hs hamid hread).2 n (by simpa using hn)
    exact ⟨hnested.1,fun _ => hnested.2⟩

/-- Every node made for a source hangs in its tree, at its number. -/
lemma Roots.stored {whole : Span} {form : SourceForm} {root : Node} (h : Roots whole s form root t)
    (hs : s.nodes = #[]) :
    (∀ n ∈ t.nodes, n ∈ root.walk) ∧ ∀ n ∈ root.walk, t.nodes[n.id]? = some n := by
  have layer {u : State} {kind : Kind Node} (h : Reads s kind.children u) :
      (∀ n ∈ (u.make whole kind).2.nodes, n ∈ (u.make whole kind).1.walk) ∧
        ∀ n ∈ (u.make whole kind).1.walk, (u.make whole kind).2.nodes[n.id]? = some n := by
    refine ⟨fun n hn => ?_,fun n hn => ((h.numbered.layer kind whole).stored n (by simpa using hn)).2⟩
    rw [Node.walk_eq]
    obtain hn | rfl := Array.mem_push.mp hn
    · refine List.mem_cons_of_mem _ ((h.mem_nodes n hn).resolve_left ?_)
      simp [hs]
    · exact List.mem_cons_self
  cases h with
  | document h => exact layer h
  | program h => exact layer h
  | expression h =>
    refine ⟨fun n hn => ?_,fun n hn => (h.numbered.stored n (by simpa using hn)).2⟩
    simpa [hs] using h.mem_nodes n hn

lemma amid_opening (text : List Char) : (opening text).Amid (tokenize text).tokens.toList.dropLast :=
  Array.foldl_induction (fun _ s => State.Amid (tokenize text).tokens.toList.dropLast s)
    ⟨List.Subset.refl _,.inl rfl⟩ fun _ _ h => h.report _ _

/-- The tree of a source that is read with success. The children of a node lie in its span, each behind
the one before it, and all nodes stand at their numbers. But for the root of a whole source, every node
starts where a token starts and ends where a token ends, the end of the source not counted as one. -/
theorem nested_of_success {form : SourceForm} {source : String} {p : Parse}
    (h : parse? form source = some p) (hsuccess : p.success) : ∀ n ∈ p.nodes,
    (∀ c ∈ n :: n.children, p.nodes[c.id]? = some c) ∧ n.Nests ∧
      (¬(n = p.root ∧ n.kind.isWhole) → n.Framed (tokenize source.toList).tokens.toList.dropLast) := by
  have hsound := sound_of_parse? h
  have hclean := (clean_of_success h hsuccess).1
  obtain ⟨root,t,hreading,hroot,hnodes,hdiagnostics⟩ := reading_of_parse? h
  obtain ⟨hsince,-⟩ := since_reading hreading
  have hroots := roots_reading hreading
  have hfresh := fresh_opening source.toList
  have hordered := (ready_opening source.toList).1.ordered
  rw [hroot] at hsound ⊢
  rw [hnodes] at hclean ⊢
  have hblank : t.diagnostics = #[] := by
    refine blank_of_success (hsince.errors hfresh.errors) ?_
    rw [← hdiagnostics]
    exact hsuccess
  have hfilled : ∀ n ∈ t.nodes, n.Filled := by
    intro n hn
    obtain hn | hn := hsince.filled hblank hordered n hn.val
    · simp [hfresh.nodes] at hn
    · exact hn
  obtain ⟨hwalk,hstored⟩ := hroots.stored hfresh.nodes
  intro n hn
  refine ⟨fun c hc => hstored c ?_,?_⟩
  · obtain rfl | hc := List.mem_cons.mp hc
    · exact hwalk c hn
    · exact Node.mem_walk_trans (hwalk n hn) (Node.mem_walk_of_mem_children hc c.mem_walk_self)
  · exact hroots.nested hordered (amid_opening _) hsound (fun n hn => ⟨hclean n hn,hfilled n hn⟩) n (hwalk n hn)

/-- An operator after an operand in parentheses, which are in its span and not in that of the operand. -/
theorem nested_of_success_parentheses : ∃ p, parse? .program "(a)+b;" = some p ∧ p.success ∧
    p.nodes.toList.map Node.span = [⟨1, 2⟩, ⟨4, 5⟩, ⟨0, 5⟩, ⟨0, 5⟩, ⟨0, 6⟩] ∧ ∀ n ∈ p.nodes,
    (∀ c ∈ n :: n.children, p.nodes[c.id]? = some c) ∧ n.Nests ∧
      (¬(n = p.root ∧ n.kind.isWhole) → n.Framed (tokenize "(a)+b;".toList).tokens.toList.dropLast) := by
  have h : (parse? .program "(a)+b;").any fun p => p.success ∧
      p.nodes.toList.map Node.span = [⟨1, 2⟩, ⟨4, 5⟩, ⟨0, 5⟩, ⟨0, 5⟩, ⟨0, 6⟩] := by
    decide +kernel
  obtain ⟨p,hp,hread⟩ := (Option.any_eq_true _ _).mp h
  obtain ⟨hsuccess,hspans⟩ := of_decide_eq_true hread
  exact ⟨p,hp,hsuccess,hspans,nested_of_success hp hsuccess⟩

/-! The layers of any source. -/

section

variable {s t : State} {xs : List Node}

/-- What is read is formed of the tokens that were to come. -/
theorem Reads.formed (h : Reads s xs t) : ∀ n ∈ xs.flatMap Node.walk, n.kind.Formed s.rest n.span := by
  induction h with
  | nothing | token | complaint | directive | skip => simp
  | append h h' ih ih' =>
    intro n hn
    rw [List.flatMap_append] at hn
    exact (List.mem_append.mp hn).elim (ih n) fun hn => (ih' n hn).mono h.follows.rest.subset
  | missing s => exact Node.forall_walk (Kind.formed_of_isPlain rfl) (List.forall_mem_nil _)
  | layer kind span h h' placed named formed ih ih' => exact Node.forall_walk formed ih
  | @declaredArray s t u members m array h h' statement name lt closed made ih ih' =>
    subst made
    refine Node.forall_walk (.of_shaped ?_ rfl rfl) ?_
    · simp [State.make,Node.kind,Kind.Shaped,statement]
    change ∀ n ∈ (Kind.publicMember _).children.flatMap Node.walk, _
    rw [Kind.children_declared statement]
    refine Node.forall_walk (.of_shaped trivial rfl rfl) fun n hn => ?_
    exact (ih' n hn).mono h.follows.rest.subset
  | inside allowIn async generator h ih => exact ih
  | deeper room h ih => exact ih

/-- Every layer of the tree of a source is formed of its tokens, the end of the source not counted as one. -/
theorem formed_of_parse? {form : SourceForm} {source : String} {p : Parse} (h : parse? form source = some p) :
    ∀ n ∈ p.root.walk, n.kind.Formed (tokenize source.toList).tokens.toList.dropLast n.span := by
  obtain ⟨root,t,hreading,hroot,-⟩ := reading_of_parse? h
  rw [hroot]
  have hsub := (amid_opening source.toList).rest
  have hformed : ∀ n ∈ [root].flatMap Node.walk, n.kind.Formed (opening source.toList).rest n.span := by
    cases roots_reading hreading with
    | document hreads leading => exact Node.forall_walk (.of_shaped leading rfl rfl) hreads.formed
    | program hreads => exact Node.forall_walk (.of_shaped trivial rfl rfl) hreads.formed
    | expression hreads => exact hreads.formed
  exact fun n hn => (hformed n (by simpa using hn)).mono hsub

end

end Grammar
end QmlCodeModel
