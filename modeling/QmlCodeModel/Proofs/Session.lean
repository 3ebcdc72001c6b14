import QmlCodeModel.Proofs.Symbols.Bounds
import QmlCodeModel.Session

/-! References to objects. Whatever is opened, read and asked, a reference means something to the document
that gave it, until that document is read again, and nothing to any other document. -/
namespace QmlCodeModel

/-! The objects of a reading have numbers below that of their count. -/

namespace Reading

variable {form : SourceForm} {directory : Path} {source : String} {r : Reading}

lemma symbols_bounded (h : of? form directory source = some r) : r.symbols.Bounded := by
  obtain ⟨p,-,hr⟩ := Option.bind_eq_some_iff.mp h
  cases hr
  exact p.symbols_bounded _ _

/-- The tree does not depend on the directory. -/
lemma map_parse (form : SourceForm) (directory : Path) (source : String) :
    (of? form directory source).map parse = parse? form source := by
  unfold of?
  cases parse? form source <;> rfl

end Reading

namespace OpenDocument

variable {d d' : OpenDocument} {v : ValueReference}

/-- A reference that means an object of the last reading. -/
def Holds (d : OpenDocument) (v : ValueReference) : Prop :=
  ∃ reading k, d.document.reading = some reading ∧ v = ⟨some d.identity, some k⟩ ∧
    k < reading.symbols.tables.objects.size

/-- What has been read is in order. -/
def Bounded (d : OpenDocument) : Prop := ∀ r ∈ d.document.reading, r.symbols.Bounded

lemma isSome_describe? (h : d.Holds v) : (d.describe? v).isSome := by
  obtain ⟨reading,k,hreading,rfl,hk⟩ := h
  simp [describe?,resolve?,hreading,hk]

lemma isNull_of_isSome (h : (d.describe? v).isSome) : v.isNull = false := by
  obtain ⟨identity,object⟩ := v
  cases object with
  | none => simp [describe?,resolve?] at h
  | some k => rfl

lemma identity_of_isSome (h : (d.describe? v).isSome) : v.identity = some d.identity := by
  by_contra hne
  simp [describe?,resolve?,hne] at h

/-- Where the tables say which object is meant, the reference to it holds. -/
lemma holds_reference {f : Symbols → Option Nat} (h : d.Bounded)
    (hf : ∀ s : Symbols, s.Bounded → ∀ k, f s = some k → k < s.tables.objects.size)
    (hnull : (d.reference (d.document.symbols?.bind f)).isNull = false) :
    d.Holds (d.reference (d.document.symbols?.bind f)) := by
  unfold reference Document.symbols? at *
  cases hreading : d.document.reading with
  | none =>
    rw [hreading] at hnull
    cases hnull
  | some reading =>
    rw [hreading] at hnull
    change (f reading.symbols).isNone = false at hnull
    obtain ⟨k,hk⟩ := Option.isSome_iff_exists.mp (Option.isNone_eq_false_iff.mp hnull)
    refine ⟨reading,k,hreading,?_,hf _ (h _ hreading) k hk⟩
    exact congrArg (ValueReference.mk _) hk

/-- An object is a part of one that is there. -/
lemma holds_parent {o : ObjectDescription} (h : d.Bounded) (ho : d.describe? v = some o)
    (hnull : o.parent.isNull = false) : d.Holds o.parent := by
  unfold describe? resolve? at ho
  split at ho
  case isFalse => cases ho
  obtain ⟨⟨reading,object⟩,hresolve,rfl⟩ := Option.map_eq_some_iff.mp ho
  obtain ⟨r,hreading,hresolve⟩ := Option.bind_eq_some_iff.mp hresolve
  obtain ⟨k,-,hresolve⟩ := Option.bind_eq_some_iff.mp hresolve
  obtain ⟨o,ho,hsome⟩ := Option.bind_eq_some_iff.mp hresolve
  cases hsome
  obtain ⟨p,hp⟩ := Option.isSome_iff_exists.mp (Option.isNone_eq_false_iff.mp hnull)
  change object.parent = some p at hp
  refine ⟨reading,p,hreading,?_,?_⟩
  · exact congrArg (ValueReference.mk _) hp
  · have hmem : object.key ∈ reading.symbols.tables.keys :=
      List.mem_map_of_mem (Array.mem_toList_iff.mpr (Array.mem_of_getElem? ho))
    rw [← SymbolTables.length_keys]
    exact (h _ hreading).tables.parents _ hmem p hp

end OpenDocument

namespace Session

/-- What happens while documents are open. -/
inductive Request
  | openFile (workingDirectory file : Path)
  | parse (index : Nat) (source : String)
  | ranges (index : Nat)
  | ask (index : Nat) (q : Question)
  /-- A document that is not of this session takes a number. -/
  | elsewhere
  deriving DecidableEq

def serve (s : Session) : Request → Session
  | .openFile workingDirectory file => s.openFile workingDirectory file
  | .parse index source => s.parse index source
  | .ranges index => (s.ranges index).2
  | .ask index q => (s.ask index q).2
  | .elsewhere => { s with nextIdentity := s.nextIdentity + 1 }

def run (s : Session) (requests : List Request) : Session := requests.foldl serve s

/-- The source that a request gives to a document. Only one that is open can be given a source. -/
def given (s : Session) (r : Request) (index : Nat) : Option String :=
  match r with
  | .parse i source => if i = index then s.documents[index]?.map fun _ => source else none
  | _ => none

/-- The last source that requests give to a document. -/
def lastSource (s : Session) (requests : List Request) (index : Nat) : Option String :=
  match requests with
  | [] => none
  | r :: rest => ((s.serve r).lastSource rest index).or (s.given r index)

/-- At most one document is changed at a time, and it then has a number that no document had before. -/
inductive Step (s s' : Session) (given : Nat → Option String) : Prop
  | keeps (documents : s'.documents = s.documents) (next : s.nextIdentity ≤ s'.nextIdentity)
      (kept : ∀ j r, s'.rangesKept.get? j = some r →
        s.rangesKept.get? j = some r ∨ ∃ d, s.documents[j]? = some d ∧ d.ranges = r)
      (none : ∀ j, given j = none)
  | puts (index : Nat) (d : Document)
      (documents : ∀ j, s'.documents[j]? = if j = index then some ⟨d, s.nextIdentity⟩ else s.documents[j]?)
      (next : s'.nextIdentity = s.nextIdentity + 1)
      (kept : ∀ j r, s'.rangesKept.get? j = some r →
        s.rangesKept.get? j = some r ∧ (j = index → s.documents[index]? = none))
      (others : ∀ j, j ≠ index → given j = none)
      (reading : d.reading = (given index).bind (Reading.of? d.dialect.form d.directory))
      (opened : given index = none → s.documents[index]? = none)

variable {s s' s'' : Session} {sources given given' : Nat → Option String}

lemma step_openFile (s : Session) (workingDirectory file : Path) :
    Step s (s.openFile workingDirectory file) fun _ => none := by
  refine .puts s.documents.length (.edited workingDirectory file) (fun j => ?_) rfl
    (fun j r hr => ⟨hr,fun _ => List.getElem?_eq_none (Nat.le_refl _)⟩) (fun _ _ => rfl) rfl
    (fun _ => List.getElem?_eq_none (Nat.le_refl _))
  change (s.documents ++ [_])[j]? = _
  obtain hj | rfl | hj := Nat.lt_trichotomy j s.documents.length
  · rw [List.getElem?_append_left hj,if_neg (Nat.ne_of_lt hj)]
  · simp
  · rw [List.getElem?_eq_none (by simp; omega),if_neg (Nat.ne_of_gt hj),
      List.getElem?_eq_none (Nat.le_of_lt hj)]

lemma getElem?_parse {index : Nat} {d : OpenDocument} (hd : s.documents[index]? = some d) (source : String)
    (j : Nat) : (s.parse index source).documents[j]? =
      if j = index then some ⟨(d.document.setSource source).readAs d.document.dialect.form, s.nextIdentity⟩
      else s.documents[j]? := by
  by_cases hj : j = index
  · subst hj
    simp [parse,read,readAs,edit,hd,Document.setSource]
  · have hj' : index ≠ j := fun h => hj h.symm
    simp [parse,read,readAs,edit,hd,hj,hj']

lemma step_parse (s : Session) (index : Nat) (source : String) :
    Step s (s.parse index source) (s.given (.parse index source)) := by
  have hkept (j : Nat) (r : Ranges) (hr : (s.rangesKept.erase index).get? j = some r) :
      s.rangesKept.get? j = some r ∧ j ≠ index := by
    rw [FiniteMap.get?_erase] at hr
    split at hr
    · cases hr
    · exact ⟨hr,‹_›⟩
  cases hd : s.documents[index]? with
  | none =>
    have hclosed : s.parse index source = { s with rangesKept := s.rangesKept.erase index } := by
      have hmodify (f : OpenDocument → OpenDocument) : s.documents.modify index f = s.documents :=
        List.modify_eq_self (List.getElem?_eq_none_iff.mp hd)
      simp [parse,read,edit,hmodify,hd]
    rw [hclosed]
    refine .keeps rfl (Nat.le_refl _) (fun j r hr => .inl (hkept j r hr).1) fun j => ?_
    change (if index = j then s.documents[j]?.map fun _ => source else none) = none
    split
    · rename_i hj
      rw [← hj,hd]
      rfl
    · rfl
  | some d =>
    have hgiven : s.given (.parse index source) index = some source := by simp [given,hd]
    have hnext : (s.parse index source).nextIdentity = s.nextIdentity + 1 := by
      simp [parse,read,readAs,edit,hd]
    have hranges : (s.parse index source).rangesKept = s.rangesKept.erase index := by
      simp [parse,read,readAs,edit,hd]
    refine .puts index _ (getElem?_parse hd source) hnext (fun j r hr => ?_) (fun j hj => ?_) ?_ ?_
    · obtain ⟨hr,hj⟩ := hkept j r (hranges ▸ hr)
      exact ⟨hr,fun h => absurd h hj⟩
    · exact if_neg fun h => hj h.symm
    · rw [hgiven]
      rfl
    · rw [hgiven]
      exact fun h => nomatch h

lemma documents_ranges (s : Session) (index : Nat) : (s.ranges index).2.documents = s.documents := by
  unfold ranges
  split <;> try split
  all_goals rfl

lemma step_ranges (s : Session) (index : Nat) : Step s (s.ranges index).2 fun _ => none := by
  refine .keeps (documents_ranges s index) ?_ ?_ fun _ => rfl
  · unfold ranges
    split <;> try split
    all_goals exact Nat.le_refl _
  · intro j r
    unfold ranges
    split
    · exact .inl
    · rename_i d hd
      split
      · exact .inl
      · change (s.rangesKept.insert index d.ranges).get? j = some r → _
        rw [FiniteMap.get?_insert]
        split
        · rintro ⟨⟩
          exact .inr ⟨d,‹j = index› ▸ hd,rfl⟩
        · exact .inl

lemma Step.refl (s : Session) : Step s s fun _ => none :=
  .keeps rfl (Nat.le_refl _) (fun _ _ => .inl) fun _ => rfl

theorem step_serve (s : Session) (r : Request) : Step s (s.serve r) (s.given r) := by
  cases r with
  | openFile workingDirectory file => exact step_openFile s workingDirectory file
  | parse index source => exact step_parse s index source
  | ranges index => exact step_ranges s index
  | ask index q =>
    change Step s (s.ask index q).2 fun _ => none
    unfold ask
    split
    · exact .refl s
    · cases q with
      | around offset => exact step_ranges s index
      | root => exact .refl s
      | named id => exact .refl s
      | parentOf v => exact .refl s
  | elsewhere => exact .keeps rfl (Nat.le_succ _) (fun _ _ => .inl) fun _ => rfl

/-! What is true of the documents at any time. -/

/-- Documents have numbers of their own, were made of the sources that they were given last, and the ranges
that are kept are theirs. -/
structure Sound (s : Session) (sources : Nat → Option String) : Prop where
  below : ∀ (i : Nat) (d : OpenDocument), s.documents[i]? = some d → d.identity < s.nextIdentity
  distinct : ∀ (i j : Nat) (d d' : OpenDocument), s.documents[i]? = some d → s.documents[j]? = some d' →
    d.identity = d'.identity → i = j
  reading : ∀ (i : Nat) (d : OpenDocument), s.documents[i]? = some d →
    d.document.reading = (sources i).bind (Reading.of? d.document.dialect.form d.document.directory)
  closed : ∀ i : Nat, s.documents[i]? = none → sources i = none
  kept : ∀ (i : Nat) (r : Ranges), s.rangesKept.get? i = some r → ∃ d, s.documents[i]? = some d ∧ d.ranges = r

theorem Sound.step (h : Sound s sources) (hstep : Step s s' given) :
    Sound s' fun i => (given i).or (sources i) := by
  cases hstep with
  | keeps documents next kept none =>
    refine ⟨?_,?_,?_,?_,?_⟩ <;> simp only [documents,none,Option.none_or]
    · exact fun i d hd => Nat.lt_of_lt_of_le (h.below i d hd) next
    · exact h.distinct
    · exact h.reading
    · exact h.closed
    · exact fun i r hr => (kept i r hr).elim (h.kept i r) id
  | puts index d documents next kept others reading opened =>
    have hcases {i : Nat} {d' : OpenDocument} (hd : s'.documents[i]? = some d') :
        i = index ∧ d' = ⟨d, s.nextIdentity⟩ ∨ i ≠ index ∧ s.documents[i]? = some d' := by
      rw [documents] at hd
      split at hd
      · exact .inl ⟨‹_›,(Option.some.inj hd).symm⟩
      · exact .inr ⟨‹_›,hd⟩
    refine ⟨?_,?_,?_,?_,?_⟩
    · intro i d' hd
      rw [next]
      obtain ⟨-,rfl⟩ | ⟨-,hd⟩ := hcases hd
      · exact Nat.lt_succ_self _
      · exact Nat.lt_succ_of_lt (h.below i d' hd)
    · intro i j d₁ d₂ hd₁ hd₂ heq
      obtain ⟨rfl,rfl⟩ | ⟨-,hd₁⟩ := hcases hd₁ <;> obtain ⟨rfl,rfl⟩ | ⟨-,hd₂⟩ := hcases hd₂
      · rfl
      · exact absurd heq (Nat.ne_of_gt (h.below j d₂ hd₂))
      · exact absurd heq (Nat.ne_of_lt (h.below i d₁ hd₁))
      · exact h.distinct i j d₁ d₂ hd₁ hd₂ heq
    · intro i d' hd
      obtain ⟨rfl,rfl⟩ | ⟨hi,hd⟩ := hcases hd
      · change d.reading = _
        rw [reading]
        cases hgiven : given i with
        | none => simp [h.closed i (opened hgiven)]
        | some source => rfl
      · rw [others i hi]
        exact h.reading i d' hd
    · intro i hnone
      rw [documents] at hnone
      split at hnone
      · cases hnone
      · rw [others i ‹_›]
        exact h.closed i hnone
    · intro i r hr
      obtain ⟨hr,hi⟩ := kept i r hr
      obtain ⟨d',hd',hranges⟩ := h.kept i r hr
      refine ⟨d',?_,hranges⟩
      rw [documents]
      split
      · rename_i heq
        rw [heq,hi heq] at hd'
        cases hd'
      · exact hd'

theorem Sound.run (h : Sound s sources) (requests : List Request) :
    Sound (s.run requests) fun i => (s.lastSource requests i).or (sources i) := by
  induction requests generalizing s sources with
  | nil => exact h
  | cons r rest ih =>
    change Sound ((s.serve r).run rest) _
    simp only [lastSource,Option.or_assoc]
    exact ih (h.step (step_serve s r))

lemma sound_start : Sound {} fun _ => none := by
  refine ⟨?_,?_,?_,fun _ _ => rfl,?_⟩ <;> simp [FiniteMap.get?]

theorem sound_run (requests : List Request) : Sound (run {} requests) (lastSource {} requests) := by
  simpa using sound_start.run requests

lemma Sound.bounded (h : Sound s sources) {i : Nat} {d : OpenDocument} (hd : s.documents[i]? = some d) :
    d.Bounded := by
  intro r hr
  rw [h.reading i d hd] at hr
  obtain ⟨source,-,hr⟩ := Option.bind_eq_some_iff.mp hr
  exact Reading.symbols_bounded hr

/-- Kept or made anew, the ranges are those of the source that was given last. -/
lemma Sound.ranges (h : Sound s sources) {i : Nat} {d : OpenDocument} (hd : s.documents[i]? = some d) :
    (s.ranges i).1 =
      (((sources i).bind (parse? d.document.dialect.form)).map fun p => Ranges.ofRoot p.root).getD {} := by
  have hranges : (s.ranges i).1 = d.ranges := by
    unfold Session.ranges
    simp only [hd]
    split
    · rename_i r hr
      obtain ⟨d',hd',hr⟩ := h.kept i r hr
      cases hd.symm.trans hd'
      exact hr.symm
    · rfl
  rw [hranges]
  unfold OpenDocument.ranges
  rw [h.reading i d hd]
  cases sources i with
  | none => rfl
  | some source =>
    simp only [Option.bind_some]
    rw [← Reading.map_parse _ d.document.directory,Option.map_map]
    rfl

/-- A reference that is asked for holds at that time. -/
lemma Sound.holds_ask (h : Sound s sources) {i : Nat} {q : Question} {v : ValueReference} {d : OpenDocument}
    (hd : s.documents[i]? = some d) (hv : (s.ask i q).1 = some v) (hnull : v.isNull = false) : d.Holds v := by
  have hbounded := h.bounded hd
  unfold ask at hv
  simp only [hd] at hv
  cases q with
  | root =>
    cases hv
    exact OpenDocument.holds_reference hbounded (fun s hs k hk => hs.root k hk) hnull
  | named id =>
    cases hv
    refine OpenDocument.holds_reference hbounded (fun s hs k hk => ?_) hnull
    rw [← SymbolTables.length_keys]
    exact hs.tables.ids id k hk
  | around offset =>
    cases hv
    unfold OpenDocument.valueIn at hnull ⊢
    split at hnull
    · cases hnull
    · exact OpenDocument.holds_reference hbounded (fun s hs k hk => SymbolTables.objectOf?_lt hk) hnull
  | parentOf v' =>
    obtain ⟨o,ho,rfl⟩ := Option.map_eq_some_iff.mp hv
    exact OpenDocument.holds_parent hbounded ho hnull

/-! What becomes of the documents later. -/

/-- Documents that are not read are as they were. Those that are read or opened have new numbers. -/
structure Follows (s s' : Session) (given : Nat → Option String) : Prop where
  next : s.nextIdentity ≤ s'.nextIdentity
  same : ∀ (i : Nat) (d : OpenDocument), s.documents[i]? = some d → given i = none → s'.documents[i]? = some d
  fresh : ∀ (i : Nat) (d : OpenDocument), s'.documents[i]? = some d → (s.documents[i]? = none ∨ given i ≠ none) →
    s.nextIdentity ≤ d.identity

lemma Step.follows (h : Step s s' given) : Follows s s' given := by
  cases h with
  | keeps documents next kept none =>
    refine ⟨next,?_,?_⟩ <;> rw [documents]
    · exact fun i d hd _ => hd
    · intro i d hd hi
      obtain hi | hi := hi
      · cases hd.symm.trans hi
      · exact absurd (none i) hi
  | puts index d documents next kept others reading opened =>
    refine ⟨next ▸ Nat.le_succ _,?_,?_⟩
    · intro i d' hd hi
      rw [documents]
      split
      · rename_i heq
        rw [heq] at hd hi
        cases hd.symm.trans (opened hi)
      · exact hd
    · intro i d' hd hi
      rw [documents] at hd
      split at hd
      · cases hd
        exact Nat.le_refl _
      · obtain hi | hi := hi
        · cases hd.symm.trans hi
        · exact absurd (others i ‹_›) hi

lemma Follows.trans (h : Follows s s' given) (h' : Follows s' s'' given') :
    Follows s s'' fun i => (given' i).or (given i) := by
  refine ⟨Nat.le_trans h.next h'.next,?_,?_⟩
  · intro i d hd hi
    obtain ⟨hi',hi⟩ := Option.or_eq_none_iff.mp hi
    exact h'.same i d (h.same i d hd hi) hi'
  · intro i d hd hi
    by_cases hlater : s'.documents[i]? = none ∨ given' i ≠ none
    · exact Nat.le_trans h.next (h'.fresh i d hd hlater)
    · simp only [not_or,ne_eq,not_not] at hlater
      obtain ⟨hopen,hgiven⟩ := hlater
      obtain ⟨d',hd'⟩ := Option.ne_none_iff_exists'.mp hopen
      cases hd.symm.trans (h'.same i d' hd' hgiven)
      refine h.fresh i d hd' (hi.imp id fun hi => ?_)
      simpa [hgiven] using hi

/-- No other document gets the number of a document, and that one has it until it is read. -/
lemma Follows.of_identity (h : Follows s s' given) (hsound : Sound s sources) {i j : Nat} {d d' : OpenDocument}
    (hd : s.documents[i]? = some d) (hd' : s'.documents[j]? = some d') (heq : d'.identity = d.identity) :
    j = i ∧ given i = none ∧ d' = d := by
  have hold : ¬ (s.documents[j]? = none ∨ given j ≠ none) := by
    intro hnew
    have hle := h.fresh j d' hd' hnew
    have hlt := hsound.below i d hd
    omega
  simp only [not_or,ne_eq,not_not] at hold
  obtain ⟨hopen,hnone⟩ := hold
  obtain ⟨d₀,hd₀⟩ := Option.ne_none_iff_exists'.mp hopen
  cases hd'.symm.trans (h.same j d₀ hd₀ hnone)
  obtain rfl := hsound.distinct j i d' d hd₀ hd heq
  exact ⟨rfl,hnone,Option.some.inj (hd₀.symm.trans hd)⟩

theorem follows_run (s : Session) (requests : List Request) :
    Follows s (s.run requests) (s.lastSource requests) := by
  induction requests generalizing s with
  | nil =>
    refine ⟨Nat.le_refl _,fun _ _ hd _ => hd,fun i d hd hi => ?_⟩
    obtain hi | hi := hi
    · cases hd.symm.trans hi
    · exact absurd rfl hi
  | cons r rest ih => exact (step_serve s r).follows.trans (ih (s.serve r))

lemma Step.isSome (h : Step s s' given) {i : Nat} (hi : s.documents[i]?.isSome) : s'.documents[i]?.isSome := by
  cases h with
  | keeps documents => rwa [documents]
  | puts index d documents =>
    rw [documents]
    split
    · rfl
    · exact hi

/-- A document that is open is given a source by every request to parse it. -/
lemma lastSource_eq_none_iff {i : Nat} (hi : s.documents[i]?.isSome) (requests : List Request) :
    s.lastSource requests i = none ↔ ∀ source, .parse i source ∉ requests := by
  induction requests generalizing s with
  | nil => simp [lastSource]
  | cons r rest ih =>
    have hgiven : s.given r i = none ↔ ∀ source, r ≠ .parse i source := by
      obtain ⟨d,hd⟩ := Option.isSome_iff_exists.mp hi
      unfold Session.given
      cases r with
      | parse j source => by_cases hj : j = i <;> simp [hj,hd]
      | _ => simp
    rw [lastSource,Option.or_eq_none_iff,ih ((step_serve s r).isSome hi),hgiven,← forall_and]
    refine forall_congr' fun source => ?_
    rw [List.mem_cons,not_or,and_comm,ne_comm]

/-- A reference means something to a document exactly if that document gave it, has not been read since, and
the reference is not null. It then means the object that it meant at first, which is there. The ranges of a
document are those of the tree of its last source. -/
theorem describe?_iff {before later : List Request} {i j : Nat} {q : Question} {v : ValueReference}
    {d d' : OpenDocument} (hd : (run {} before).documents[i]? = some d)
    (hv : ((run {} before).ask i q).1 = some v)
    (hd' : (run {} (before ++ .ask i q :: later)).documents[j]? = some d') :
    ((d'.describe? v).isSome ↔ v.isNull = false ∧ j = i ∧ ∀ source, .parse i source ∉ later) ∧
      ((d'.describe? v).isSome → d'.describe? v = d.describe? v) ∧
      (v.isNull = false → v.identity = some d'.identity → ∃ reading k, d'.document.reading = some reading ∧
        v.object = some k ∧ k < reading.symbols.tables.objects.size) ∧
      ((run {} (before ++ .ask i q :: later)).ranges j).1 =
        (((lastSource {} (before ++ .ask i q :: later) j).bind (parse? d'.document.dialect.form)).map
          fun p => Ranges.ofRoot p.root).getD {} := by
  have hrun : run {} (before ++ .ask i q :: later) = (run {} before).run (.ask i q :: later) :=
    List.foldl_append
  have hsound := sound_run before
  have hfollows := follows_run (run {} before) (.ask i q :: later)
  rw [← hrun] at hfollows
  have hread : (run {} before).lastSource (.ask i q :: later) i = none ↔ ∀ source, .parse i source ∉ later := by
    rw [lastSource_eq_none_iff (Option.isSome_of_eq_some hd)]
    simp
  -- a reference with the number of a document comes from that document, as it still is
  have hsame (hnull : v.isNull = false) (hidentity : v.identity = some d'.identity) :
      j = i ∧ (run {} before).lastSource (.ask i q :: later) i = none ∧ d' = d := by
    obtain ⟨_,_,-,hreference,-⟩ := hsound.holds_ask hd hv hnull
    rw [hreference] at hidentity
    exact hfollows.of_identity hsound hd hd' (Option.some.inj hidentity).symm
  refine ⟨⟨fun h => ?_,?_⟩,fun h => ?_,fun hnull hidentity => ?_,?_⟩
  · have hnull := OpenDocument.isNull_of_isSome h
    obtain ⟨hji,hnone,-⟩ := hsame hnull (OpenDocument.identity_of_isSome h)
    exact ⟨hnull,hji,hread.mp hnone⟩
  · rintro ⟨hnull,rfl,hlater⟩
    obtain rfl := Option.some.inj (hd'.symm.trans (hfollows.same j d hd (hread.mpr hlater)))
    exact OpenDocument.isSome_describe? (hsound.holds_ask hd hv hnull)
  · obtain ⟨-,-,rfl⟩ := hsame (OpenDocument.isNull_of_isSome h) (OpenDocument.identity_of_isSome h)
    rfl
  · obtain ⟨-,-,rfl⟩ := hsame hnull hidentity
    obtain ⟨reading,k,hreading,rfl,hk⟩ := hsound.holds_ask hd hv hnull
    exact ⟨reading,k,hreading,rfl,hk⟩
  · exact (sound_run _).ranges hd'

/-- A reference to the first object of one document, while another is opened and read. -/
theorem describe?_of_first : ∃ v d d',
    (run {} [.openFile ⟨""⟩ ⟨"a.qml"⟩, .parse 0 "A\x7b\x7d"]).documents[0]? = some d ∧
    ((run {} [.openFile ⟨""⟩ ⟨"a.qml"⟩, .parse 0 "A\x7b\x7d"]).ask 0 .root).1 = some v ∧
    (run {} ([.openFile ⟨""⟩ ⟨"a.qml"⟩, .parse 0 "A\x7b\x7d"] ++ .ask 0 .root ::
      [.openFile ⟨""⟩ ⟨"b.qml"⟩, .parse 1 "B\x7b\x7d", .ranges 0])).documents[0]? = some d' ∧
    d'.describe? v = d.describe? v ∧ (d'.describe? v).isSome := by
  have hv : ((run {} [.openFile ⟨""⟩ ⟨"a.qml"⟩, .parse 0 "A\x7b\x7d"]).ask 0 .root).1 =
      some ⟨some 2, some 0⟩ := by
    decide +kernel
  have hd : (run {} [.openFile ⟨""⟩ ⟨"a.qml"⟩, .parse 0 "A\x7b\x7d"]).documents[0]?.isSome := by
    decide +kernel
  have hd' : (run {} ([.openFile ⟨""⟩ ⟨"a.qml"⟩, .parse 0 "A\x7b\x7d"] ++ .ask 0 .root ::
      [.openFile ⟨""⟩ ⟨"b.qml"⟩, .parse 1 "B\x7b\x7d", .ranges 0])).documents[0]?.isSome := by
    decide +kernel
  obtain ⟨d,hd⟩ := Option.isSome_iff_exists.mp hd
  obtain ⟨d',hd'⟩ := Option.isSome_iff_exists.mp hd'
  obtain ⟨hiff,hsame,-⟩ := describe?_iff hd hv hd'
  have hsome := hiff.mpr ⟨rfl,rfl,by simp⟩
  exact ⟨⟨some 2, some 0⟩,d,d',hd,hv,hd',hsame hsome,hsome⟩

end Session

end QmlCodeModel
