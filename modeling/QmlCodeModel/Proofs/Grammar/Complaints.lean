import QmlCodeModel.Proofs.Grammar.Moves.Reading

/-! Which errors are reported at one offset. The faults of the text come first and then those of the grammar, and only
the last message is compared with a new one. So one offset may have a fault of the text and one of the grammar, and any
fault beside a target that cannot be assigned to, since that is reported at its start; otherwise the offsets differ. -/
namespace QmlCodeModel

def GrammarFault.isLexical : GrammarFault → Bool
  | .lexical _ => true
  | _ => false

/-- Faults that one offset may have together. -/
def GrammarFault.Shares (f g : GrammarFault) : Prop :=
  f = .invalidAssignmentTarget ∨ g = .invalidAssignmentTarget ∨ f.isLexical ≠ g.isLexical

lemma GrammarFault.Shares.symm {f g : GrammarFault} (h : f.Shares g) : g.Shares f := by
  obtain h | h | h := h
  · exact .inr (.inl h)
  · exact .inl h
  · exact .inr (.inr h.symm)

lemma GrammarFault.shares_of_isHere {f g : GrammarFault} (hf : ¬f.isHere) (hg : g.isHere) : f.Shares g := by
  cases f with
  | lexical f =>
    refine .inr (.inr ?_)
    cases g <;> first | exact absurd hg Bool.false_ne_true | exact Bool.noConfusion
  | invalidAssignmentTarget => exact .inl rfl
  | _ => exact absurd rfl hf

/-- The message for a fault at an offset. -/
def LineIndex.complaint (lines : LineIndex) (e : Nat × GrammarFault) : Diagnostic :=
  ⟨.error, e.1, lines.positionAt e.1, e.2.message⟩

lemma Diagnostic.sorted_sort (ds : List Diagnostic) : (sort ds).Pairwise fun d e => d.offset ≤ e.offset := by
  refine (List.pairwise_mergeSort ?_ ?_ ds).imp (by simp)
  · intro c d e hcd hde
    simp only [decide_eq_true_eq] at hcd hde ⊢
    exact Nat.le_trans hcd hde
  · intro d e
    simpa using Nat.le_total d.offset e.offset

/-! Faults of the text. -/

/-- The faults found so far are in order, and none starts behind what has been read. -/
structure TokenStream.FaultsInOrder (s : TokenStream) : Prop where
  sorted : s.faults.toList.Pairwise fun f g => f.1.start ≤ g.1.start
  start_le : ∀ f ∈ s.faults.toList, f.1.start ≤ s.position

namespace TokenStream

variable {s t : TokenStream}

/-- New faults start where the last part read started. -/
lemma FaultsInOrder.later {new : List (Span × LexicalFault)} (h : s.FaultsInOrder)
    (hfaults : t.faults.toList = s.faults.toList ++ new) (hnew : ∀ f ∈ new, f.1.start = s.position)
    (hposition : s.position ≤ t.position) : t.FaultsInOrder := by
  refine ⟨?_,?_⟩
  · rw [hfaults,List.pairwise_append]
    refine ⟨h.sorted,List.pairwise_of_forall_mem_list fun f hf g hg => ?_,fun f hf g hg => ?_⟩
    · rw [hnew f hf,hnew g hg]
    · rw [hnew g hg]
      exact h.start_le f hf
  · intro f hf
    rw [hfaults] at hf
    obtain hf | hf := List.mem_append.mp hf
    · exact Nat.le_trans (h.start_le f hf) hposition
    · rw [hnew f hf]
      exact hposition

/-- Nothing is wrong with the last part read. -/
lemma FaultsInOrder.kept (h : s.FaultsInOrder) (hfaults : t.faults = s.faults) (hposition : s.position ≤ t.position) :
    t.FaultsInOrder :=
  ⟨hfaults ▸ h.sorted,fun f hf => Nat.le_trans (h.start_le f (hfaults ▸ hf)) hposition⟩

lemma FaultsInOrder.add (h : s.FaultsInOrder) (l : Lexeme) : (s.add l).FaultsInOrder := by
  cases l with
  | blank c => exact h.kept rfl (Nat.le_add_right _ _)
  | lineBreak c => exact h.kept rfl (Nat.le_add_right _ _)
  | stray c => exact h.later Array.toList_push (by simp) (Nat.le_add_right _ _)
  | comment text closed =>
    cases closed with
    | true => exact h.kept rfl (Nat.le_add_right _ _)
    | false => exact h.later Array.toList_push (by simp) (Nat.le_add_right _ _)
  | token kind text faults =>
    refine h.later Array.toList_appendList (fun f hf => ?_) (Nat.le_add_right _ _)
    obtain ⟨_,-,rfl⟩ := List.mem_map.mp hf
    rfl

/-- The faults of a text are found from its start on. -/
lemma sorted_faults (text : List Char) :
    (tokenize text).faults.toList.Pairwise fun f g => f.1.start ≤ g.1.start := by
  have hfold : ∀ (ls : List Lexeme) (s : TokenStream), s.FaultsInOrder →
      (ls.foldl TokenStream.add s).FaultsInOrder := by
    intro ls
    induction ls with
    | nil => exact fun _ h => h
    | cons l ls ih => exact fun s h => ih _ (h.add l)
  have h := (hfold (lexemes text) {} ⟨.nil,by simp⟩).sorted
  simpa [tokenize,finish,addToken] using h

end TokenStream

namespace Grammar

/-- The messages so far are those for these faults. -/
def State.Records (s : State) (log : List (Nat × GrammarFault)) : Prop :=
  s.diagnostics.toList = log.map s.lines.complaint

variable {s t : State} {log : List (Nat × GrammarFault)}

/-- A fault is left out if the last one stands at its offset. -/
lemma State.Records.report (h : s.Records log) (offset : Nat) (fault : GrammarFault) :
    (log.getLast?.map Prod.fst = some offset ∧ s.report offset fault = s) ∨
      (log.getLast?.map Prod.fst ≠ some offset ∧ (s.report offset fault).Records (log ++ [(offset,fault)])) := by
  have hback : s.diagnostics.back? = log.getLast?.map s.lines.complaint := by
    rw [← Array.getLast?_toList,h,List.getLast?_map]
  have hsame : (s.diagnostics.back?.any fun d => d.offset == offset && d.severity == .error) =
      decide (log.getLast?.map Prod.fst = some offset) := by
    rw [hback]
    cases log.getLast? with
    | none => simp
    | some e => simp [LineIndex.complaint,beq_eq_decide]
  unfold State.report
  rw [hsame]
  by_cases hlast : log.getLast?.map Prod.fst = some offset
  · exact .inl ⟨hlast,by simp [hlast]⟩
  · refine .inr ⟨hlast,?_⟩
    simp only [hlast,decide_false,Bool.false_eq_true,if_false]
    unfold Records at h ⊢
    simp [h,LineIndex.complaint]

/-- The offset of the last fault. -/
def lastOffset? (log : List (Nat × GrammarFault)) : Option Nat := log.getLast?.map Prod.fst

/-- The faults reported so far. One that was found at the next token stands no later than the next token now, and at
the same offset only if it was the last one. -/
structure State.Logged (faults : List (Span × LexicalFault)) (s : State) (log : List (Nat × GrammarFault)) : Prop where
  records : s.Records log
  shares : log.Pairwise fun d e => d.1 = e.1 → d.2.Shares e.2
  lexical : ∀ e ∈ log, ∀ fault, e.2 = .lexical fault → ∃ span, (span, fault) ∈ faults ∧ e.1 = span.start
  reached : ∀ e ∈ log, e.2.isHere → e.1 ≤ s.front ∧ (e.1 = s.front → lastOffset? log = some s.front)

variable {faults : List (Span × LexicalFault)} {tokens : List Token}

/-- Nothing has been reported on the way forward. -/
lemma State.Logged.forward (h : s.Logged faults log) (hdiagnostics : t.diagnostics = s.diagnostics)
    (hlines : t.lines = s.lines) (hfront : s.front ≤ t.front) : t.Logged faults log := by
  refine ⟨?_,h.shares,h.lexical,fun e he here => ?_⟩
  · have hrecords := h.records
    unfold Records at hrecords ⊢
    rw [hdiagnostics,hlines,hrecords]
  · obtain ⟨hle,hlast⟩ := h.reached e he here
    refine ⟨Nat.le_trans hle hfront,fun heq => ?_⟩
    have hsame : s.front = t.front := by omega
    rw [← hsame] at heq ⊢
    exact hlast heq

/-- A fault at the next token is left out, or it is the first one there that was found by the grammar and no target. -/
lemma State.Logged.complaint (h : s.Logged faults log) {fault : GrammarFault} (here : fault.isHere) :
    ∃ log, (s.report s.front fault).Logged faults log := by
  obtain ⟨-,hreport⟩ | ⟨hlast,hrecords⟩ := h.records.report s.front fault
  · exact ⟨log,by rwa [hreport]⟩
  refine ⟨log ++ [(s.front,fault)],hrecords,?_,?_,?_⟩
  · refine List.pairwise_append.mpr ⟨h.shares,List.pairwise_singleton _ _,fun d hd e he heq => ?_⟩
    obtain rfl := List.mem_singleton.mp he
    refine GrammarFault.shares_of_isHere (fun hhere => ?_) here
    exact hlast ((h.reached d hd hhere).2 heq)
  · intro e he
    obtain he | he := List.mem_append.mp he
    · exact h.lexical e he
    · obtain rfl := List.mem_singleton.mp he
      rintro _ rfl
      exact absurd here Bool.false_ne_true
  · intro e he hhere
    rw [front_report]
    obtain he | he := List.mem_append.mp he
    · exact ⟨(h.reached e he hhere).1,fun _ => by simp [lastOffset?]⟩
    · obtain rfl := List.mem_singleton.mp he
      exact ⟨Nat.le_refl _,fun _ => by simp [lastOffset?]⟩

/-- A target may stand anywhere, but then a token is taken. -/
lemma State.Logged.target (h : s.Logged faults log) (hs : s.Ordered) (hrest : s.rest ≠ []) (offset : Nat) :
    ∃ log, (s.report offset .invalidAssignmentTarget).advance.Logged faults log := by
  have hlt : s.front < s.advance.front :=
    Nat.lt_of_lt_of_le (State.front_lt_advance hs hrest) (s.follows_advance.order hs).1.previousStop_le_front
  obtain ⟨-,hreport⟩ | ⟨-,hrecords⟩ := h.records.report offset .invalidAssignmentTarget
  · rw [hreport]
    exact ⟨log,h.forward s.diagnostics_advance s.lines_advance (Nat.le_of_lt hlt)⟩
  have hfront : (s.report offset .invalidAssignmentTarget).advance.front = s.advance.front := by
    unfold front
    rw [peek_advance,peek_advance,ahead,ahead,rest_report,(s.follows_report offset _).eof]
  refine ⟨log ++ [(offset,.invalidAssignmentTarget)],?_,?_,?_,?_⟩
  · unfold Records at hrecords ⊢
    rwa [diagnostics_advance,lines_advance]
  · refine List.pairwise_append.mpr ⟨h.shares,List.pairwise_singleton _ _,fun d hd e he _ => ?_⟩
    obtain rfl := List.mem_singleton.mp he
    exact .inr (.inl rfl)
  · intro e he
    obtain he | he := List.mem_append.mp he
    · exact h.lexical e he
    · obtain rfl := List.mem_singleton.mp he
      rintro _ ⟨⟩
  · intro e he hhere
    rw [hfront]
    obtain he | he := List.mem_append.mp he
    · have := (h.reached e he hhere).1
      exact ⟨by omega,fun heq => by omega⟩
    · obtain rfl := List.mem_singleton.mp he
      exact absurd hhere Bool.false_ne_true

/-- By induction on the steps. -/
lemma Goes.logged (h : Goes tokens s t) (hs : s.Ordered) (hlog : s.Logged faults log) :
    t.Ordered ∧ t.lines = s.lines ∧ ∃ log, t.Logged faults log := by
  induction h generalizing log with
  | append _ _ ih ih' =>
    obtain ⟨ht,hlines,log',hlog'⟩ := ih hs hlog
    obtain ⟨hu,hlines',hlog''⟩ := ih' ht hlog'
    exact ⟨hu,hlines'.trans hlines,hlog''⟩
  | token s =>
    obtain ⟨hordered,-,hfront⟩ := s.follows_advance.order hs
    exact ⟨hordered,s.lines_advance,log,hlog.forward s.diagnostics_advance s.lines_advance hfront⟩
  | complaint s fault here =>
    exact ⟨((s.follows_report s.front fault).order hs).1,s.lines_report s.front fault,hlog.complaint here⟩
  | target s offset operator =>
    have hfollows := (s.follows_report offset .invalidAssignmentTarget).trans (State.follows_advance _)
    exact ⟨(hfollows.order hs).1,(State.lines_advance _).trans (s.lines_report offset _),
      hlog.target hs operator offset⟩
  | skip s =>
    obtain ⟨hordered,-,hfront⟩ := s.follows_skip.order hs
    exact ⟨hordered,rfl,log,hlog.forward rfl rfl hfront⟩
  | inside _ _ _ _ _ ih =>
    obtain ⟨ht,hlines,log',hlog'⟩ := ih hs (hlog.forward rfl rfl (Nat.le_refl _))
    exact ⟨ht,hlines,log',hlog'.forward rfl rfl (Nat.le_refl _)⟩
  | _ => exact ⟨hs,rfl,log,hlog.forward rfl rfl (Nat.le_refl _)⟩

/-- Behind offsets in order comes one that is greater, if it is not the last one again. -/
lemma lt_of_last_ne {offset : Nat} (hincreasing : log.Pairwise fun d e => d.1 < e.1) (hle : ∀ d ∈ log, d.1 ≤ offset)
    (hlast : lastOffset? log ≠ some offset) : ∀ d ∈ log, d.1 < offset := by
  obtain rfl | ⟨before,last,rfl⟩ := log.eq_nil_or_concat
  · simp
  rw [List.concat_eq_append] at *
  rw [List.forall_mem_append,List.forall_mem_singleton] at hle
  rw [List.pairwise_append] at hincreasing
  have hne : last.1 ≠ offset := by simpa [lastOffset?] using hlast
  have hlt : last.1 < offset := Nat.lt_of_le_of_ne hle.2 hne
  refine List.forall_mem_append.mpr ⟨fun d hd => ?_,List.forall_mem_singleton.mpr hlt⟩
  exact Nat.lt_trans (hincreasing.2.2 d hd last (List.mem_singleton_self _)) hlt

/-- The faults of the text, each at an offset of its own. By induction on the faults, which are in order. -/
lemma logged_foldl {new : List (Span × LexicalFault)} (hsorted : new.Pairwise fun f g => f.1.start ≤ g.1.start)
    (hnew : ∀ f ∈ new, f ∈ faults) (hrecords : s.Records log) (hincreasing : log.Pairwise fun d e => d.1 < e.1)
    (hbefore : ∀ d ∈ log, ∀ f ∈ new, d.1 ≤ f.1.start)
    (hlexical : ∀ e ∈ log, ∃ f ∈ faults, e = (f.1.start,.lexical f.2)) :
    ∃ log, (new.foldl (fun s f => s.report f.1.start (.lexical f.2)) s).Logged faults log := by
  induction new generalizing s log with
  | nil =>
    refine ⟨log,hrecords,hincreasing.imp fun hlt heq => absurd heq (Nat.ne_of_lt hlt),?_,?_⟩
    · intro e he fault hfault
      obtain ⟨f,hf,rfl⟩ := hlexical e he
      cases hfault
      exact ⟨f.1,hf,rfl⟩
    · intro e he hhere
      obtain ⟨f,-,rfl⟩ := hlexical e he
      exact absurd hhere Bool.false_ne_true
  | cons f new ih =>
    obtain ⟨hle,hsorted⟩ := List.pairwise_cons.mp hsorted
    obtain ⟨hf,hnew⟩ := List.forall_mem_cons.mp hnew
    have hlater : ∀ d ∈ log, ∀ g ∈ new, d.1 ≤ g.1.start := fun d hd g hg => hbefore d hd g (List.mem_cons_of_mem f hg)
    rw [List.foldl_cons]
    obtain ⟨-,hreport⟩ | ⟨hlast,hreport⟩ := hrecords.report f.1.start (.lexical f.2)
    · rw [hreport]
      exact ih hsorted hnew hrecords hincreasing hlater hlexical
    · refine ih hsorted hnew hreport ?_ ?_ ?_
      · refine List.pairwise_append.mpr ⟨hincreasing,List.pairwise_singleton _ _,fun d hd e he => ?_⟩
        obtain rfl := List.mem_singleton.mp he
        exact lt_of_last_ne hincreasing (fun d hd => hbefore d hd f List.mem_cons_self) hlast d hd
      · intro d hd g hg
        obtain hd | hd := List.mem_append.mp hd
        · exact hlater d hd g hg
        · obtain rfl := List.mem_singleton.mp hd
          exact hle g hg
      · intro e he
        obtain he | he := List.mem_append.mp he
        · exact hlexical e he
        · obtain rfl := List.mem_singleton.mp he
          exact ⟨f,hf,rfl⟩

lemma lines_opening (text : List Char) : (opening text).lines = LineIndex.ofText text := by
  unfold opening initialState
  apply Array.foldl_induction (fun _ (s : State) => s.lines = LineIndex.ofText text)
  · rfl
  · exact fun i s hs => (s.lines_report _ _).trans hs

lemma logged_opening (text : List Char) :
    ∃ log, (opening text).Logged (tokenize text).faults.toList log := by
  unfold opening initialState
  rw [← Array.foldl_toList]
  refine @logged_foldl _ [] _ _ (TokenStream.sorted_faults text) (fun _ hf => hf) rfl .nil ?_ ?_
  · simp
  · simp

/-- The messages of a source are sorted by their offsets. At one offset there is one message for faults of the text at
most, and one for faults that the grammar found at the next token; only targets that cannot be assigned to may be
reported beside any other fault. -/
theorem parse?_diagnostics {form : SourceForm} {source : String} {p : Parse} (h : parse? form source = some p) :
    p.diagnostics.Pairwise (fun d e => d.offset ≤ e.offset) ∧
      ∃ log : List (Nat × GrammarFault),
        p.diagnostics = log.map (LineIndex.ofText source.toList).complaint ∧
        (∀ e ∈ log, ∀ fault, e.2 = .lexical fault →
          ∃ span, (span, fault) ∈ (tokenize source.toList).faults.toList ∧ e.1 = span.start) ∧
        log.Pairwise fun d e => d.1 = e.1 → d.2.Shares e.2 := by
  obtain ⟨root,t,hreading,-,-,hdiagnostics⟩ := reading_of_parse? h
  obtain ⟨log,hlog⟩ := logged_opening source.toList
  obtain ⟨-,hlines,log,hlog⟩ := (goes_reading hreading).logged (ready_opening source.toList).1.ordered hlog
  have hperm := List.mergeSort_perm log fun d e => decide (d.1 ≤ e.1)
  have hsort : Diagnostic.sort (log.map t.lines.complaint) =
      (log.mergeSort fun d e => decide (d.1 ≤ e.1)).map t.lines.complaint :=
    (List.map_mergeSort (f := t.lines.complaint) fun _ _ _ _ => rfl).symm
  rw [hlines,lines_opening] at hsort
  have hrecords := hlog.records
  unfold State.Records at hrecords
  rw [hlines,lines_opening] at hrecords
  rw [hdiagnostics,hrecords]
  refine ⟨Diagnostic.sorted_sort _,log.mergeSort fun d e => decide (d.1 ≤ e.1),hsort,?_,?_⟩
  · exact fun e he => hlog.lexical e (hperm.subset he)
  · exact hperm.symm.pairwise hlog.shares fun hshares heq => (hshares heq.symm).symm

/-- A number without digits is a fault of the text, and the missing semicolon before it one of the grammar. -/
theorem parse?_diagnostics_number : ∃ p, parse? .program "1 2 0x" = some p ∧
    p.diagnostics.Pairwise (fun d e => d.offset ≤ e.offset) ∧
      ∃ log : List (Nat × GrammarFault), p.diagnostics = log.map (LineIndex.ofText "1 2 0x".toList).complaint ∧
        log.Pairwise fun d e => d.1 = e.1 → d.2.Shares e.2 := by
  have hread : (parse? .program "1 2 0x").isSome := by decide +kernel
  obtain ⟨p,hp⟩ := Option.isSome_iff_exists.mp hread
  obtain ⟨hsorted,log,hlog,-,hshares⟩ := parse?_diagnostics hp
  exact ⟨p,hp,hsorted,log,hlog,hshares⟩

/-- The target `1 +` starts where a semicolon is missed, and the end of the sum is reported between the two. -/
theorem parse?_target_twice :
    ∃ p, parse? .program "x 1 + = 3" = some p ∧ p.diagnostics.map (·.offset) = [2, 2, 6] := by
  have hp : (parse? .program "x 1 + = 3").isSome := by decide +kernel
  obtain ⟨p,hp⟩ := Option.isSome_iff_exists.mp hp
  obtain ⟨root,t,hreading,-,-,hdiagnostics⟩ := reading_of_parse? hp
  have hread : (reading .program "x 1 + = 3".toList).toOption.map (fun r => r.2.diagnostics.toList.map (·.offset)) =
      some [2, 6, 2] := by
    decide +kernel
  rw [hreading] at hread
  have hoffsets : t.diagnostics.toList.map (·.offset) = [2, 6, 2] := Option.some.inj hread
  have hperm : ((Diagnostic.sort t.diagnostics.toList).map (·.offset)).Perm [2, 2, 6] :=
    ((List.mergeSort_perm _ _).map _).trans (hoffsets ▸ by decide)
  have hsorted := List.pairwise_map.mpr (Diagnostic.sorted_sort t.diagnostics.toList)
  refine ⟨p,hp,?_⟩
  rw [hdiagnostics]
  exact hperm.eq_of_pairwise (fun _ _ _ _ => Nat.le_antisymm) hsorted (by decide)

end Grammar
end QmlCodeModel
