import QmlCodeModel.Proofs.Grammar.Reads
import QmlCodeModel.Proofs.Token.Bracket

/-! What a part of the grammar has done if no error was reported: the brackets that it took are nested,
it took a token if it had to, and no error node and no empty node was made. A report makes all this void,
for ever. Beside it stands what holds with errors too: scripts make nodes of scripts only. -/
namespace QmlCodeModel

/-- Layers that may be empty, or of which it is known otherwise that they are not. -/
def Kind.isFrame {α : Type} : Kind α → Bool
  | .document _ _ | .program _ | .arrayBinding _ _ _ | .error => true
  | .publicMember m => m.kind == .property
  | _ => false

/-- Layers of scripts that always have parts. -/
def Kind.isHolder {α : Type} : Kind α → Bool
  | .expressionStatement _ | .if _ _ _ | .doWhile _ _ | .while _ _ | .for _ _ _ _ | .forEach _ _ _ _
  | .switch _ _ | .labelled _ _ | .throw _ | .try _ _ _ _ | .functionDeclaration _ | .functionExpression _
  | .property _ (some _) _ _ | .spread _ | .member _ _ _ | .index _ _ _ | .call _ _ _ | .new _ _
  | .taggedTemplate _ _ | .unary _ _ | .update _ _ _ | .binary _ _ _ | .assign _ _ _ | .conditional _ _ _
  | .sequence (_ :: _) | .await _ => true
  | _ => false

lemma Kind.children_ne_nil {kind : Kind Node} (h : kind.isHolder) : kind.children ≠ [] := by
  unfold isHolder at h
  split at h
  all_goals first | exact absurd h Bool.false_ne_true | simp [children,FunctionParts.children]

/-- A node without parts has tokens of its own. -/
def Node.Filled (n : Node) : Prop :=
  n.children = [] → n.kind.isFrame = false → n.span.start < n.span.stop

namespace Grammar

/-- What is known of the tokens that were taken since some state: the brackets that were opened and not
closed, the innermost first, and whether there are any tokens. Beside it, an offset may be marked that no
token to come starts before. -/
structure Stretch where
  opened : List Bracket := []
  taken : Bool := false
  mark : Nat := 0
  /-- A token has been taken since the mark. -/
  passed : Bool := false

namespace Stretch

def take (m : Stretch) : Stretch := { m with taken := true, passed := true }

/-- One more bracket has been opened. -/
def enter (m : Stretch) (b : Bracket) : Stretch := { m.take with opened := b :: m.opened }

/-- An offset is marked. -/
def markAt (m : Stretch) (offset : Nat) : Stretch := { m with mark := offset, passed := false }

end Stretch

/-- The tokens that were taken from one state to another, where no error has been reported. -/
structure Took (s : State) (m : Stretch) (t : State) (ts : List Token) : Prop where
  blank : s.diagnostics = #[]
  rest : s.rest = ts ++ t.rest
  count : t.taken = s.taken + ts.length
  nested : Bracket.nest [] ts = some m.opened
  some : m.taken → ts ≠ []

/-- Every message so far is an error. -/
def State.Errs (s : State) : Prop := ∀ d ∈ s.diagnostics.toList, d.severity = .error

/-- What has been done since a state, where only nodes of scripts may have been asked for. -/
structure Since (only : Bool) (s : State) (m : Stretch) (t : State) : Prop where
  eof : t.eof.kind = .eof
  errors : s.Errs → t.Errs
  made : ∃ made, t.nodes.toList = s.nodes.toList ++ made ∧
    (only → ∀ n ∈ made, n.kind.isScript ∨ n.kind = .error) ∧
    (t.diagnostics = #[] → ∀ n ∈ made, n.kind ≠ .error)
  took : t.diagnostics = #[] → ∃ ts, Took s m t ts
  ahead : t.diagnostics = #[] → s.Ordered → t.Ordered ∧ m.mark ≤ t.front ∧ (m.passed → m.mark < t.previousStop)
  filled : t.diagnostics = #[] → s.Ordered → ∀ n ∈ t.nodes.toList, n ∈ s.nodes.toList ∨ n.Filled

namespace Since

variable {only : Bool} {s t : State} {m m' : Stretch}

lemma refl (heof : s.eof.kind = .eof) : Since only s {} s where
  eof := heof
  errors := id
  made := ⟨[],by simp⟩
  took h := ⟨[],h,rfl,rfl,rfl,fun h => absurd h Bool.false_ne_true⟩
  ahead _ hs := ⟨hs,Nat.zero_le _,nofun⟩
  filled _ _ _ := .inl

/-- After a report nothing is known of the tokens. -/
lemma spoil (h : Since only s m t) (hspoiled : t.diagnostics ≠ #[]) : Since only s m' t :=
  ⟨h.eof,h.errors,h.made,fun hblank => absurd hblank hspoiled,fun hblank => absurd hblank hspoiled,
    fun hblank => absurd hblank hspoiled⟩

lemma weaken (h : Since only s m.take t) : Since only s m t := by
  refine ⟨h.eof,h.errors,h.made,fun hblank => ?_,fun hblank hs => ?_,h.filled⟩
  · obtain ⟨ts,hts⟩ := h.took hblank
    exact ⟨ts,hts.blank,hts.rest,hts.count,hts.nested,fun _ => hts.some rfl⟩
  · obtain ⟨ht,hmark,hpassed⟩ := h.ahead hblank hs
    exact ⟨ht,hmark,fun _ => hpassed rfl⟩

lemma markAt (h : Since only s m t) : Since only s (m.markAt t.front) t := by
  refine ⟨h.eof,h.errors,h.made,fun hblank => ?_,fun hblank hs => ?_,h.filled⟩
  · obtain ⟨ts,hts⟩ := h.took hblank
    exact ⟨ts,hts.blank,hts.rest,hts.count,hts.nested,hts.some⟩
  · exact ⟨(h.ahead hblank hs).1,Nat.le_refl _,nofun⟩

/-- What has been done since a marked offset has been done since an earlier mark too. -/
lemma unmark {u : State} (h : Since only s m t) (h' : Since only s (m.markAt t.front).take u)
    (hblank : u.diagnostics = #[] → t.diagnostics = #[]) : Since only s m.take u := by
  refine ⟨h'.eof,h'.errors,h'.made,fun hu => ?_,fun hu hs => ?_,h'.filled⟩
  · obtain ⟨ts,hts⟩ := h'.took hu
    exact ⟨ts,hts.blank,hts.rest,hts.count,hts.nested,hts.some⟩
  · obtain ⟨-,hmark,-⟩ := h.ahead (hblank hu) hs
    obtain ⟨hordered,hfront,hpassed⟩ := h'.ahead hu hs
    exact ⟨hordered,Nat.le_trans hmark hfront,fun _ => Nat.lt_of_le_of_lt hmark (hpassed rfl)⟩

/-- Nothing but the surroundings has changed. -/
lemma congr {u : State} (h : Since only s m t) (heof : u.eof = t.eof) (hnodes : u.nodes = t.nodes)
    (hdiagnostics : u.diagnostics = t.diagnostics) (hrest : u.rest = t.rest)
    (htaken : u.taken = t.taken) (hstop : u.previousStop = t.previousStop) : Since only s m u := by
  refine ⟨heof ▸ h.eof,fun herrs => ?_,?_,fun hblank => ?_,?_,?_⟩
  · unfold State.Errs
    rw [hdiagnostics]
    exact h.errors herrs
  · rw [hnodes,hdiagnostics]
    exact h.made
  · rw [hdiagnostics] at hblank
    obtain ⟨ts,hts⟩ := h.took hblank
    exact ⟨ts,hts.blank,hrest ▸ hts.rest,htaken ▸ hts.count,hts.nested,hts.some⟩
  · unfold State.Ordered State.front State.peek
    rw [hdiagnostics,heof,hrest,hstop]
    exact h.ahead
  · rw [hnodes,hdiagnostics]
    exact h.filled

/-- A token has been taken that does this to the open brackets. -/
lemma advance (h : Since only s m t) (hkind : t.peek.kind ≠ .eof) {opened : List Bracket}
    (hstep : Bracket.step m.opened t.peek = some opened) :
    Since only s { m.take with opened } t.advance := by
  have hrest : t.rest ≠ [] := by
    intro hnil
    refine hkind ?_
    simpa [State.peek,hnil] using h.eof
  obtain ⟨x,rest,hx⟩ := List.exists_cons_of_ne_nil hrest
  have hpeek : t.peek = x := by simp [State.peek,hx]
  have hadvance : t.advance = { t with rest, taken := t.taken + 1, previousStop := x.span.stop } := by
    simp [State.advance,hx]
  have hfollows := State.follows_advance t
  rw [hadvance] at hfollows ⊢
  refine ⟨h.eof,h.errors,h.made,fun hblank => ?_,fun hblank hs => ?_,h.filled⟩
  · obtain ⟨ts,hts⟩ := h.took hblank
    refine ⟨ts ++ [x],hts.blank,?_,?_,?_,by simp⟩
    · simp [hts.rest,hx]
    · simp [hts.count,Nat.add_assoc]
    · rw [Bracket.nest_append,hts.nested]
      simpa [Bracket.nest,hpeek] using hstep
  · obtain ⟨ht,hmark,-⟩ := h.ahead hblank hs
    obtain ⟨hordered,-,hfront⟩ := hfollows.order ht
    refine ⟨hordered,Nat.le_trans hmark hfront,fun _ => Nat.lt_of_le_of_lt hmark ?_⟩
    unfold State.Ordered at ht
    rw [hx] at ht
    rw [State.front,hpeek]
    exact ht.2.1

lemma advance_spoiled (h : Since only s m t) (hspoiled : t.diagnostics ≠ #[]) :
    Since only s m' t.advance := by
  unfold State.advance
  split
  · exact h.spoil hspoiled
  · exact ⟨h.eof,h.errors,h.made,fun hblank => absurd hblank hspoiled,fun hblank => absurd hblank hspoiled,
      fun hblank => absurd hblank hspoiled⟩

lemma report_ne_empty (t : State) (offset : Nat) (fault : GrammarFault) :
    (t.report offset fault).diagnostics ≠ #[] := by
  unfold State.report
  split
  · rename_i h
    intro hnil
    simp [hnil] at h
  · simp

lemma errs_report (h : t.Errs) (offset : Nat) (fault : GrammarFault) : (t.report offset fault).Errs := by
  unfold State.report
  split
  · exact h
  · intro d hd
    rw [Array.toList_push] at hd
    obtain hd | hd := List.mem_append.mp hd
    · exact h d hd
    · rw [List.mem_singleton.mp hd]

lemma report (h : Since only s m t) (offset : Nat) (fault : GrammarFault) :
    Since only s m' (t.report offset fault) := by
  have hspoiled := report_ne_empty t offset fault
  refine ⟨?_,fun herrs => errs_report (h.errors herrs) offset fault,?_,fun hblank => absurd hblank hspoiled,
    fun hblank => absurd hblank hspoiled,fun hblank => absurd hblank hspoiled⟩
  · rw [(t.follows_report offset fault).eof]
    exact h.eof
  · obtain ⟨made,hmade,honly,-⟩ := h.made
    refine ⟨made,?_,honly,fun hblank => absurd hblank hspoiled⟩
    rw [t.nodes_report]
    exact hmade

/-- A node has been made that is allowed here. -/
lemma make (h : Since only s m t) (span : Span) {kind : Kind Node}
    (hscript : only → kind.isScript ∨ kind = .error) (herror : t.diagnostics = #[] → kind ≠ .error)
    (hfilled : t.diagnostics = #[] → s.Ordered → (t.make span kind).1.Filled) :
    Since only s m (t.make span kind).2 := by
  refine ⟨h.eof,h.errors,?_,fun hblank => ?_,h.ahead,fun hblank hs n hn => ?_⟩
  · obtain ⟨made,hmade,honly,hnone⟩ := h.made
    refine ⟨made ++ [(t.make span kind).1],?_,fun ho n hn => ?_,fun hblank n hn => ?_⟩
    · simp [State.make,hmade]
    · obtain hn | hn := List.mem_append.mp hn
      · exact honly ho n hn
      · rw [List.mem_singleton.mp hn]
        exact hscript ho
    · obtain hn | hn := List.mem_append.mp hn
      · exact hnone hblank n hn
      · rw [List.mem_singleton.mp hn]
        exact herror hblank
  · obtain ⟨ts,hts⟩ := h.took hblank
    exact ⟨ts,hts.blank,hts.rest,hts.count,hts.nested,hts.some⟩
  · change n ∈ (t.nodes.push _).toList at hn
    rw [Array.toList_push] at hn
    obtain hn | hn := List.mem_append.mp hn
    · exact h.filled hblank hs n hn
    · rw [List.mem_singleton.mp hn]
      exact .inr (hfilled hblank hs)

end Since

/-- From a state that some stretch leads to, a part comes by its answer to the end of another stretch. -/
def Leads {α : Type} (only : Bool) (m : Stretch) (p : Parser α) (m' : Stretch) (t : State) : Prop :=
  ∀ s, Since only s m t → ∀ a u, p t = .ok (a, u) → Since only s m' u

/-- A part that closes the brackets which it opens. -/
def Keeps {α : Type} (only : Bool) (p : Parser α) : Prop := ∀ m t, Leads only m p m t

/-- A part that closes the brackets which it opens, and takes a token. -/
def Consumes {α : Type} (only : Bool) (p : Parser α) : Prop := ∀ m t, Leads only m p m.take t

section

variable {α β : Type} {only : Bool} {m m' m'' : Stretch} {p : Parser α} {k : α → Parser β} {t : State}

lemma Leads.weaken (h : Leads only m p m'.take t) : Leads only m p m' t :=
  fun s hs a u hu => (h s hs a u hu).weaken

lemma Consumes.keeps (h : Consumes only p) : Keeps only p := fun m t => (h m t).weaken

lemma Leads.bind (h : Leads only m p m' t) (hk : ∀ a u, Leads only m' (k a) m'' u) :
    Leads only m (p >>= k) m'' t := by
  intro s hs b v hv
  obtain ⟨a,u,hu,hv⟩ := bind_eq_ok hv
  exact hk a u s (h s hs a u hu) b v hv

lemma Keeps.bind (h : Keeps only p) (hk : ∀ a u, Leads only m (k a) m' u) :
    Leads only m (p >>= k) m' t := Leads.bind (h m t) hk

lemma Consumes.bind (h : Consumes only p) (hk : ∀ a u, Leads only m.take (k a) m' u) :
    Leads only m (p >>= k) m' t := Leads.bind (h m t) hk

lemma leads_pure {a : α} : Leads only m (pure a) m t := by
  rintro s hs b u ⟨⟩
  exact hs

lemma Leads.map (h : Leads only m p m' t) (f : α → β) : Leads only m (f <$> p) m' t := by
  rw [← bind_pure_comp]
  exact h.bind fun _ _ => leads_pure

lemma leads_ite {c : Prop} [Decidable c] {q : Parser α} (hp : c → Leads only m p m' t)
    (hq : ¬c → Leads only m q m' t) : Leads only m (if c then p else q) m' t := by
  split
  · exact hp ‹_›
  · exact hq ‹_›

lemma Leads.discard (h : Leads only m p m' t) : Leads only m (discard p) m' t := h.map _

lemma Keeps.discard (h : Keeps only p) : Keeps only (discard p) := fun m t => (h m t).discard

lemma Consumes.map (h : Consumes only p) (f : α → β) : Consumes only (f <$> p) := fun m t => (h m t).map f

/-- Where an error has been reported, any stretch leads. -/
lemma Leads.spoiled {n : Stretch} (hspoiled : t.diagnostics ≠ #[]) (h : Leads only n p m' t) :
    Leads only m p m' t :=
  fun s hs => h s (hs.spoil hspoiled)

/-! Looks at the state. -/

lemma leads_peek {k : Token → Parser β} (h : Leads only m (k t.peek) m' t) :
    Leads only m (peek >>= k) m' t := h

lemma leads_ahead {n : Nat} {k : Token → Parser β} (h : Leads only m (k (t.ahead n)) m' t) :
    Leads only m (ahead n >>= k) m' t := h

lemma leads_place {offset : Nat} {k : LineColumn → Parser β}
    (h : Leads only m (k (t.lines.positionAt offset)) m' t) : Leads only m (place offset >>= k) m' t := h

lemma leads_taken {k : Nat → Parser β} (h : Leads only m (k t.taken) m' t) :
    Leads only m (taken >>= k) m' t := h

lemma leads_get {k : State → Parser β} (h : Leads only m (k t) m' t) :
    Leads only m (get >>= k) m' t := h

lemma leads_start {k : Nat → Parser β} (h : Leads only m (k t.front) m' t) :
    Leads only m (start >>= k) m' t := h

/-- A part that takes a token, with a mark where it starts. -/
lemma Leads.marked (h : ∀ n : Stretch, Leads only (n.markAt t.front) p (n.markAt t.front).take t) :
    Leads only m p m.take t := by
  intro s hs a u hu
  refine hs.unmark (h m s hs.markAt a u hu) fun hblank => ?_
  obtain ⟨ts,hts⟩ := (h {} t (Since.refl hs.eof).markAt a u hu).took hblank
  exact hts.blank

lemma leads_upcoming {k : List Token → Parser β} (h : Leads only m (k t.rest) m' t) :
    Leads only m (upcoming >>= k) m' t := h

lemma leads_atPunct {text : String} {k : Bool → Parser β}
    (h : Leads only m (k (t.peek.isPunct text)) m' t) : Leads only m (atPunct text >>= k) m' t := h

lemma leads_atName {text : String} {k : Bool → Parser β}
    (h : Leads only m (k (t.peek.isName text)) m' t) : Leads only m (atName text >>= k) m' t := h

lemma leads_atEnd {k : Bool → Parser β} (h : Leads only m (k (t.peek.kind == .eof)) m' t) :
    Leads only m (atEnd >>= k) m' t := h

/-! Tokens. -/

lemma leads_bump {k : Token → Parser β} (hpeek : t.peek.Inner)
    (h : Leads only m.take (k t.peek) m' t.advance) : Leads only m (bump >>= k) m' t :=
  fun s hs => h s (hs.advance hpeek.kind (hpeek.plain m.opened))

lemma leads_skip {k : Unit → Parser β} (hpeek : t.peek.Inner)
    (h : Leads only m.take (k ()) m' t.advance) : Leads only m (discard bump >>= k) m' t :=
  leads_bump (k := fun _ => k ()) hpeek h

lemma leads_skip_spoiled {k : Unit → Parser β} (hspoiled : t.diagnostics ≠ #[])
    (h : Leads only m (k ()) m' t.advance) : Leads only m (discard bump >>= k) m' t :=
  fun s hs => h s (hs.advance_spoiled hspoiled)

/-- Consumes a token that passes a test and does something to the stretch, or leaves the state as it is. -/
lemma leads_eatWith {test : Token → Bool} {k : Bool → Parser β} {n : Stretch}
    (htake : test t.peek → ∀ s, Since only s m t → Since only s n t.advance)
    (htrue : test t.peek → Leads only n (k true) m' t.advance)
    (hfalse : ¬test t.peek → Leads only m (k false) m' t) : Leads only m (eat test >>= k) m' t := by
  change Leads only m ((if test t.peek then discard bump >>= fun _ => pure true else pure false) >>= k)
    m' t
  split
  · exact fun s hs => htrue ‹_› s (htake ‹_› s hs)
  · exact hfalse ‹_›

lemma leads_eat {test : Token → Bool} {k : Bool → Parser β} (hinner : ∀ x : Token, test x → x.Inner)
    (htrue : test t.peek → Leads only m.take (k true) m' t.advance)
    (hfalse : ¬test t.peek → Leads only m (k false) m' t) : Leads only m (eat test >>= k) m' t :=
  leads_eatWith (fun h _ hs => hs.advance (hinner _ h).kind ((hinner _ h).plain m.opened)) htrue hfalse

lemma Since.open {s : State} {b : Bracket} (hs : Since only s m t) (h : t.peek.isPunct b.opening) :
    Since only s (m.enter b) t.advance := by
  have hkind := (Bracket.isPunct_iff.mp h).1
  exact hs.advance (by simp [hkind]) (Bracket.step_of_opening b m.opened h)

lemma Since.close {s : State} {b : Bracket} (hs : Since only s (m.enter b) t)
    (h : t.peek.isPunct b.closing) : Since only s m.take t.advance := by
  have hkind := (Bracket.isPunct_iff.mp h).1
  exact hs.advance (by simp [hkind]) (Bracket.step_of_closing b m.opened h)

lemma leads_open {k : Unit → Parser β} (b : Bracket) (hpeek : t.peek.isPunct b.opening)
    (h : Leads only (m.enter b) (k ()) m' t.advance) : Leads only m (discard bump >>= k) m' t :=
  fun s hs => h s (hs.open hpeek)

lemma leads_eatOpen {k : Bool → Parser β} (b : Bracket)
    (htrue : ∀ u, Leads only (m.enter b) (k true) m' u) (hfalse : Leads only m (k false) m' t) :
    Leads only m (eatPunct b.opening >>= k) m' t :=
  leads_eatWith (fun h _ hs => hs.open h) (fun _ => htrue _) fun _ => hfalse

lemma keeps_eat {test : Token → Bool} (hinner : ∀ x : Token, test x → x.Inner) :
    Keeps only (eat test) := by
  intro m t
  rw [← bind_pure (eat test)]
  exact leads_eat hinner (fun _ => leads_pure.weaken) fun _ => leads_pure

lemma inner_isPunct {text : String} (h : text ∉ Token.Inner.brackets) (x : Token)
    (hx : x.isPunct text) : x.Inner := .of_isPunct hx h

lemma inner_isName {text : String} (x : Token) (hx : x.isName text) : x.Inner := .of_isName hx

lemma keeps_eatPunct {text : String} (h : text ∉ Token.Inner.brackets) :
    Keeps only (eatPunct text) := keeps_eat (inner_isPunct h)

lemma keeps_eatName (text : String) : Keeps only (eatName text) := keeps_eat inner_isName

lemma leads_skipIf {asked : Bool} {k : Unit → Parser β} (hpeek : asked → t.peek.Inner)
    (htrue : asked → Leads only m.take (k ()) m' t.advance)
    (hfalse : asked = false → Leads only m (k ()) m' t) : Leads only m (skipIf asked >>= k) m' t := by
  cases asked with
  | false => exact hfalse rfl
  | true => exact leads_skip (hpeek rfl) (htrue rfl)

lemma leads_skipIf_keeps {asked : Bool} {k : Unit → Parser β} (hpeek : asked → t.peek.Inner)
    (h : ∀ u, Leads only m (k ()) m' u) : Leads only m (skipIf asked >>= k) m' t := by
  cases asked with
  | false => exact h t
  | true => exact fun s hs => h _ s (hs.advance (hpeek rfl).kind ((hpeek rfl).plain _)).weaken

/-! Reports. -/

/-- After a report any stretch leads on. -/
lemma leads_report {k : Unit → Parser β} {fault : GrammarFault} {offset : Nat} {n : Stretch}
    (h : ∀ u, u.diagnostics ≠ #[] → Leads only n (k ()) m' u) :
    Leads only m (report offset fault >>= k) m' t :=
  fun s hs => h _ (Since.report_ne_empty t offset fault) s (hs.report offset fault)

lemma leads_reportHere {k : Unit → Parser β} {fault : GrammarFault} {n : Stretch}
    (h : ∀ u, u.diagnostics ≠ #[] → Leads only n (k ()) m' u) :
    Leads only m (reportHere fault >>= k) m' t :=
  leads_report h

lemma keeps_reportHere (fault : GrammarFault) : Keeps only (reportHere fault) := by
  intro m t
  rw [← bind_pure (reportHere fault)]
  exact leads_reportHere (n := m) fun _ _ => leads_pure

lemma keeps_reportIf (wrong : Bool) (fault : GrammarFault) : Keeps only (reportIf wrong fault) :=
  fun m t => leads_ite (fun _ => keeps_reportHere fault m t) fun _ => leads_pure

/-- What is expected is taken, or its absence is reported. -/
lemma leads_expect {test : Token → Bool} {text : String} {k : Bool → Parser β} {n : Stretch}
    (htake : test t.peek → ∀ s, Since only s m t → Since only s n t.advance)
    (htrue : ∀ u, Leads only n (k true) m' u)
    (hfalse : ∀ u, u.diagnostics ≠ #[] → Leads only n (k false) m' u) :
    Leads only m (expect test text >>= k) m' t := by
  unfold expect
  rw [bind_assoc]
  refine leads_eatWith htake (fun _ => htrue _) fun _ => ?_
  exact leads_reportHere (k := fun _ => k false) hfalse

lemma leads_discardExpect {test : Token → Bool} {text : String}
    (htake : test t.peek → ∀ s, Since only s m t → Since only s m' t.advance) :
    Leads only m (discard (expect test text)) m' t :=
  leads_expect (k := fun _ => pure ()) htake (fun _ => leads_pure) fun _ _ => leads_pure

lemma leads_expectOpen (b : Bracket) :
    Leads only m (discard (expectPunct b.opening)) (m.enter b) t :=
  leads_discardExpect fun h _ hs => hs.open h

lemma leads_expectClose (b : Bracket) :
    Leads only (m.enter b) (discard (expectPunct b.closing)) m.take t :=
  leads_discardExpect fun h _ hs => hs.close h

/-- Up to the bracket that closes the one opened last, and on. -/
lemma leads_upTo (b : Bracket) (h : Keeps only p) (hk : ∀ a u, Leads only m.take (k a) m' u) :
    Leads only (m.enter b) (do
      let a ← p
      discard (expectPunct b.closing)
      k a) m' t :=
  Leads.bind (h (m.enter b) t) fun a _ => (leads_expectClose b).bind fun _ u => hk a u

/-- A part in brackets, and on. -/
lemma leads_between (b : Bracket) (h : Keeps only p) (hk : ∀ a u, Leads only m.take (k a) m' u) :
    Leads only m (do
      discard (expectPunct b.opening)
      let a ← p
      discard (expectPunct b.closing)
      k a) m' t :=
  (leads_expectOpen b).bind fun _ _ => leads_upTo b h hk

lemma consumes_expect {test : Token → Bool} {text : String} (hinner : ∀ x : Token, test x → x.Inner) :
    Consumes only (discard (expect test text)) := fun m _ =>
  leads_discardExpect fun h _ hs => hs.advance (hinner _ h).kind ((hinner _ h).plain m.opened)

lemma consumes_expectPunct {text : String} (h : text ∉ Token.Inner.brackets) :
    Consumes only (discard (expectPunct text)) := consumes_expect (inner_isPunct h)

lemma consumes_expectName (text : String) : Consumes only (discard (expectName text)) :=
  consumes_expect inner_isName

/-! Nodes. -/

lemma leads_make {span : Span} {kind : Kind Node} (hscript : only → kind.isScript)
    (herror : kind ≠ .error) (hparts : kind.children ≠ [] ∨ kind.isFrame) :
    Leads only m (make span kind) m t := by
  rintro s hs n u ⟨⟩
  refine hs.make span (fun ho => .inl (hscript ho)) (fun _ => herror) fun _ _ hnone hframe => ?_
  exact hparts.elim (absurd hnone) fun h => absurd h (Bool.eq_false_iff.mp hframe)

lemma leads_finish {kind : Kind Node} {offset : Nat} (hscript : only → kind.isScript)
    (herror : kind ≠ .error) (hparts : kind.children ≠ [] ∨ kind.isFrame) :
    Leads only m (finish kind offset) m t :=
  fun s hs n u hu => leads_make (t := t) hscript herror hparts s hs n u hu

/-- A layer from the mark on, if a token has been taken since. -/
lemma leads_finishMarked {kind : Kind Node} (hscript : only → kind.isScript) (herror : kind ≠ .error)
    (hpassed : m.passed) : Leads only m (finish kind m.mark) m t := by
  rintro s hs n u ⟨⟩
  refine hs.make _ (fun ho => .inl (hscript ho)) (fun _ => herror) fun hblank hordered _ _ => ?_
  obtain ⟨-,-,hmark⟩ := hs.ahead hblank hordered
  exact Nat.lt_of_lt_of_le (hmark hpassed) (Nat.le_max_left _ _)

lemma ne_error_of_isScript {kind : Kind Node} (h : kind.isScript) : kind ≠ .error :=
  fun heq => by simp [heq,Kind.isScript] at h

lemma isScript_of_isHolder {kind : Kind Node} (h : kind.isHolder) : kind.isScript := by
  cases kind
  all_goals first | rfl | exact absurd h Bool.false_ne_true

/-- A layer of a script around something. -/
lemma leads_layer {kind : Kind Node} {offset : Nat} (h : kind.isHolder) :
    Leads only m (finish kind offset) m t :=
  leads_finish (fun _ => isScript_of_isHolder h) (ne_error_of_isScript (isScript_of_isHolder h))
    (.inl (Kind.children_ne_nil h))

/-- A layer of a script, which may be one without parts. -/
lemma leads_marked {kind : Kind Node} (h : kind.isScript) (hpassed : m.passed) :
    Leads only m (finish kind m.mark) m t :=
  leads_finishMarked (fun _ => h) (ne_error_of_isScript h) hpassed

/-- A layer of a script, before the same token. -/
lemma leads_marked_bind {k : Node → Parser β} {kind : Kind Node} (h : kind.isScript) (hpassed : m.passed)
    (hk : Leads only m (k (t.make (t.spanFrom m.mark) kind).1) m' (t.make (t.spanFrom m.mark) kind).2) :
    Leads only m (finish kind m.mark >>= k) m' t :=
  fun s hs => hk s (leads_marked h hpassed s hs _ _ rfl)

lemma leads_layer_spoiled {kind : Kind Node} {offset : Nat} (h : kind.isScript)
    (hspoiled : t.diagnostics ≠ #[]) : Leads only m (finish kind offset) m t := by
  rintro s hs n u ⟨⟩
  exact hs.make _ (fun _ => .inl h) (fun _ => ne_error_of_isScript h) fun hblank => absurd hblank hspoiled

lemma leads_finishError {offset : Nat} (hspoiled : t.diagnostics ≠ #[]) :
    Leads only m (finish .error offset) m t := by
  rintro s hs n u ⟨⟩
  exact hs.make _ (fun _ => .inr rfl) (fun hblank => absurd hblank hspoiled)
    fun hblank => absurd hblank hspoiled

lemma leads_errorNode (hspoiled : t.diagnostics ≠ #[]) : Leads only m errorNode m' t := by
  rintro s hs n u ⟨⟩
  have h : Since only s m' t := hs.spoil hspoiled
  exact h.make _ (fun _ => .inr rfl) (fun hblank => absurd hblank hspoiled)
    fun hblank => absurd hblank hspoiled

/-- An error node in place of something that had to take a token. -/
lemma consumes_missing (fault : GrammarFault) :
    Consumes only (do
      reportHere fault
      errorNode) :=
  fun m _ => leads_reportHere (n := m) fun _ => leads_errorNode

/-! Names, ends of statements and surroundings. -/

/-- A name is taken, or its absence is reported. -/
lemma leads_identifier {k : Option Ident → Parser β} (hsome : ∀ i u, Leads only m.take (k (some i)) m' u)
    (hnone : ∀ u, u.diagnostics ≠ #[] → Leads only m.take (k none) m' u) :
    Leads only m (identifier >>= k) m' t := by
  change Leads only m ((if t.peek.kind == .name then bump >>= fun x => pure (some (identOf x))
    else reportHere .expectedIdentifier >>= fun _ => pure none) >>= k) m' t
  split
  · rename_i h
    rw [beq_iff_eq] at h
    exact leads_bump (k := fun x => k (some (identOf x))) (.of_name h) (hsome _ _)
  · exact leads_reportHere (k := fun _ => k none) hnone

/-- A name that comes next is taken. -/
lemma leads_ident {k : Option Ident → Parser β} (h : t.peek.kind = .name)
    (hk : Leads only m.take (k (some (identOf t.peek))) m' t.advance) :
    Leads only m (identifier >>= k) m' t := by
  change Leads only m ((if t.peek.kind == .name then bump >>= fun x => pure (some (identOf x))
    else reportHere .expectedIdentifier >>= fun _ => pure none) >>= k) m' t
  rw [if_pos (by simp [h])]
  exact leads_bump (k := fun x => k (some (identOf x))) (.of_name h) hk

lemma consumes_identifier : Consumes only identifier := by
  intro m t
  rw [← bind_pure identifier]
  exact leads_identifier (fun _ _ => leads_pure) fun _ _ => leads_pure

lemma leads_bindingIdentifier {k : Option Ident → Parser β}
    (hsome : ∀ i u, Leads only m.take (k (some i)) m' u)
    (hnone : ∀ u, u.diagnostics ≠ #[] → Leads only m.take (k none) m' u) :
    Leads only m (bindingIdentifier >>= k) m' t := by
  change Leads only m ((if t.peek.isBindable then identifier
    else reportHere .expectedIdentifier >>= fun _ => pure none) >>= k) m' t
  split
  · exact leads_identifier hsome hnone
  · exact leads_reportHere (k := fun _ => k none) hnone

lemma consumes_bindingIdentifier : Consumes only bindingIdentifier := by
  intro m t
  rw [← bind_pure bindingIdentifier]
  exact leads_bindingIdentifier (fun _ _ => leads_pure) fun _ _ => leads_pure

lemma keeps_endStatement : Keeps only endStatement := by
  intro m t
  refine (keeps_eatPunct (by decide)).bind fun _ u => leads_ite (fun _ => leads_pure) fun _ => ?_
  exact leads_peek (leads_ite (fun _ => leads_pure) fun _ => keeps_reportHere _ m u)

lemma leads_finishStatement {kind : Kind Node} {offset : Nat} (h : kind.isHolder) :
    Leads only m (finishStatement kind offset) m t :=
  leads_get (keeps_endStatement.bind fun _ _ => leads_make (fun _ => isScript_of_isHolder h)
    (ne_error_of_isScript (isScript_of_isHolder h)) (.inl (Kind.children_ne_nil h)))

/-- A part in other surroundings. -/
lemma Leads.inside {f g : State → State}
    (hf : ∀ s, (f s).eof = s.eof ∧ (f s).nodes = s.nodes ∧ (f s).diagnostics = s.diagnostics ∧
      (f s).rest = s.rest ∧ (f s).taken = s.taken ∧ (f s).previousStop = s.previousStop)
    (hg : ∀ s, (g s).eof = s.eof ∧ (g s).nodes = s.nodes ∧ (g s).diagnostics = s.diagnostics ∧
      (g s).rest = s.rest ∧ (g s).taken = s.taken ∧ (g s).previousStop = s.previousStop)
    (h : Leads only m p m' (f t)) :
    Leads only m (do
      modify f
      let result ← p
      modify g
      pure result) m' t := by
  have moved {f : State → State} {s t : State} {m : Stretch}
      (hf : (f t).eof = t.eof ∧ (f t).nodes = t.nodes ∧ (f t).diagnostics = t.diagnostics ∧
        (f t).rest = t.rest ∧ (f t).taken = t.taken ∧ (f t).previousStop = t.previousStop) (hs : Since only s m t) : Since only s m (f t) :=
    hs.congr hf.1 hf.2.1 hf.2.2.1 hf.2.2.2.1 hf.2.2.2.2.1 hf.2.2.2.2.2
  suffices hafter : Leads only m (p >>= fun a => modify g >>= fun _ => pure a) m' (f t) from
    fun s hs => hafter s (moved (hf t) hs)
  refine h.bind fun a u s hs b v hv => ?_
  cases hv
  exact moved (hg u) hs

lemma Leads.withIn (allowed : Bool) (h : Leads only m p m' { t with allowIn := allowed }) :
    Leads only m (withIn allowed p) m' t :=
  leads_get (Leads.inside (fun _ => ⟨rfl,rfl,rfl,rfl,rfl,rfl⟩) (fun _ => ⟨rfl,rfl,rfl,rfl,rfl,rfl⟩) h)

lemma Keeps.withIn (allowed : Bool) (h : Keeps only p) : Keeps only (withIn allowed p) :=
  fun m _ => Leads.withIn allowed (h m _)

lemma Consumes.withIn (allowed : Bool) (h : Consumes only p) : Consumes only (withIn allowed p) :=
  fun m _ => Leads.withIn allowed (h m _)

lemma Consumes.inFunction (async generator : Bool) (h : Consumes only p) :
    Consumes only (inFunction async generator p) := fun m _ =>
  leads_get (Leads.inside (fun _ => ⟨rfl,rfl,rfl,rfl,rfl,rfl⟩) (fun _ => ⟨rfl,rfl,rfl,rfl,rfl,rfl⟩) (h m _))

lemma Keeps.optionally {present : Parser Bool} (hpresent : Keeps only present) (h : Keeps only p) :
    Keeps only (optionally present p) := fun m t =>
  (hpresent m t).bind fun _ u => leads_ite (fun _ => (h m u).map _) fun _ => leads_pure

/-! Goals. -/

/-- A way to read goals under which each of them takes a token, and those of scripts make nodes of
scripts. What starts with `new` is read only where a name comes next. -/
structure Faithful (only : Bool) (go : Reader) : Prop where
  scripts : ∀ goal, goal ≠ .initializer → goal ≠ .newExpression → Consumes only (go goal)
  newExpression : ∀ m t, t.peek.kind = .name → Leads only m (go .newExpression) m.take t
  initializer : only = false → Consumes only (go .initializer)

lemma Leads.nested {go : Reader} {goal : Goal}
    (h : Leads only m (go goal) m.take { t with depth := t.depth + 1 }) :
    Leads only m (nested go goal) m.take t := by
  refine leads_get (leads_ite (fun _ => consumes_missing .tooDeep m t) fun _ => ?_)
  exact Leads.inside (fun _ => ⟨rfl,rfl,rfl,rfl,rfl,rfl⟩) (fun _ => ⟨rfl,rfl,rfl,rfl,rfl,rfl⟩) h

lemma Consumes.nested {go : Reader} {goal : Goal} (h : Consumes only (go goal)) :
    Consumes only (nested go goal) := fun m _ => Leads.nested (h m _)

/-! Loops. -/

variable {round : Parser (Round α)} {part : Parser (List α)} {stops : Token → Bool}

lemma Keeps.collectWithin (h : Keeps only round) (rounds : Nat) :
    Keeps only (collectWithin round rounds) := by
  induction rounds with
  | zero => exact fun _ _ _ _ _ _ hu => by cases hu
  | succ rounds ih =>
    intro m t
    refine h.bind fun r _ => leads_ite (fun _ => ih.bind fun _ _ => leads_pure) fun _ => leads_pure

lemma Keeps.collect (h : Keeps only round) : Keeps only (collect round) :=
  fun m t => leads_upcoming (h.collectWithin _ m t)

lemma Keeps.collectUntil (h : Keeps only round) : Keeps only (collectUntil stops round) :=
  Keeps.collect fun m t => leads_peek (leads_ite (fun _ => leads_pure) fun _ => h m t)

lemma Keeps.iterateWithin {step : α → Parser (Option α)} (h : ∀ a, Keeps only (step a)) (rounds : Nat)
    (a : α) : Keeps only (iterateWithin step rounds a) := by
  induction rounds generalizing a with
  | zero => exact fun _ _ _ _ _ _ hu => by cases hu
  | succ rounds ih =>
    intro m t
    refine (h a).bind fun next u => ?_
    cases next with
    | none => exact leads_pure
    | some b => exact ih b m u

lemma Keeps.iterate {step : α → Parser (Option α)} (h : ∀ a, Keeps only (step a)) (a : α) :
    Keeps only (iterate step a) :=
  fun m t => leads_upcoming (Keeps.iterateWithin h _ a m t)

/-- A part that takes a token needs none to be skipped for it. Only after a report one is skipped, and
then any may be. -/
lemma Consumes.progressing (h : Consumes only p) : Consumes only (progressing p) := by
  intro m t s hs b v hv
  change (p >>= fun a => taken >>= fun after => skipIf (after == t.taken) >>= fun _ => pure a) t = _ at hv
  obtain ⟨a,u,hp,hv⟩ := bind_eq_ok hv
  have hu := h m t s hs a u hp
  replace hv : (skipIf (u.taken == t.taken) >>= fun _ => pure a) u = .ok (b, v) := hv
  cases heq : u.taken == t.taken with
  | false =>
    rw [heq] at hv
    cases hv
    exact hu
  | true =>
    rw [heq] at hv
    cases hv
    refine hu.advance_spoiled fun hblank => ?_
    obtain ⟨ts,hts⟩ := (h {} t t (.refl hs.eof) _ _ hp).took hblank
    have hpos := List.length_pos_iff.mpr (hts.some rfl)
    have hcount := hts.count
    rw [beq_iff_eq] at heq
    omega

lemma Consumes.one (h : Consumes only p) : Consumes only (one p) :=
  fun m t => (h m t).bind fun _ _ => leads_pure

lemma Consumes.everyRound (h : Consumes only part) : Keeps only (everyRound part) :=
  Consumes.keeps fun m t => (h.progressing m t).bind fun _ _ => leads_pure

lemma Consumes.commaRound (h : Consumes only part) : Keeps only (commaRound part) :=
  Consumes.keeps fun m t => (h.progressing m t).bind fun _ _ =>
    (keeps_eatPunct (by decide)).bind fun _ _ => leads_pure

lemma Consumes.commaSeparated (close : String) (h : Consumes only part) :
    Keeps only (commaSeparated close part) := h.commaRound.collectUntil

end

end Grammar
end QmlCodeModel
