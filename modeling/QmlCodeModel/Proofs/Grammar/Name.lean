import QmlCodeModel.Proofs.Grammar.Layout
import QmlCodeModel.Proofs.Grammar.Loop

/-! Dotted names are readings, and a name starts with the first token that is taken for it. -/
namespace QmlCodeModel.Grammar

variable {α : Type} {m : Nat} {s t u : State} {xs : List Node}

lemma reading_nameTail : Reading m nameTail := by
  refine reading_of_resumes fun s => reading_peek.resumes_bind fun _ => ?_
  refine (reading_ahead 1).resumes_bind fun _ => resumes_ite (fun _ => ?_) fun _ => resumes_pure rfl
  exact reading_skip.resumes_bind fun _ => reading_bump.resumes_bind fun _ => resumes_pure rfl

lemma nameTail_advances : Advances m nameTail := by
  intro s hs
  unfold nameTail
  rw [ends_peek,ends_bind]
  change Ends s.rest (if _ then _ else _) s _
  split
  · rename_i h
    simp only [Bool.and_eq_true] at h
    intro _
    have hlt := hs.advance_lt (kind_ne_eof_of_isPunct _ h.1)
    exact Nat.lt_of_le_of_lt s.advance.follows_advance.length_le hlt
  · exact advance_stop

lemma reading_qualifiedName : Reading m qualifiedName := by
  refine reading_of_resumes fun s => reading_identifier.resumes_bind fun first => ?_
  cases first with
  | none => exact resumes_pure rfl
  | some first =>
    have htail := reading_collect (reading_nameTail (m := m)) nameTail_advances
    exact htail.resumes_bind fun _ => resumes_pure (by simp)

/-- Taking a token that is there. -/
lemma State.front_lt_advance (hs : s.Ordered) (h : s.rest ≠ []) : s.front < s.advance.previousStop := by
  obtain ⟨t,rest,hrest⟩ := List.exists_cons_of_ne_nil h
  unfold State.Ordered at hs
  rw [hrest] at hs
  simpa [State.front,State.peek,State.advance,hrest] using hs.2.1

lemma State.rest_ne_nil_of_advance (h : s.advance.rest ≠ []) : s.rest ≠ [] :=
  fun hnil => h (by simp [advance,hnil])

lemma State.previousStop_advance (h : s.rest ≠ []) : s.advance.previousStop = s.peek.span.stop := by
  obtain ⟨t,rest,hrest⟩ := List.exists_cons_of_ne_nil h
  simp [advance,peek,hrest]

lemma State.peek_mem (h : s.rest ≠ []) : s.peek ∈ s.rest := by
  unfold peek
  rw [List.headD_eq_head?_getD,List.head?_eq_some_head h]
  exact List.head_mem h

lemma State.spanFrom_of_le {start : Nat} (h : start ≤ s.previousStop) :
    s.spanFrom start = ⟨start, s.previousStop⟩ := by
  unfold State.spanFrom
  rw [Nat.max_eq_left h]

/-- What has been taken before stays behind the next token. -/
lemma Reads.front_of_taken {offset : Nat} (h : Reads s xs t) (hs : s.Ordered)
    (hoffset : offset < s.previousStop) : offset < t.previousStop ∧ offset < t.front := by
  obtain ⟨ht,hlast,-⟩ := h.follows.order hs
  have := ht.previousStop_le_front
  omega

/-- Names have been read, none of them before the first token. -/
structure ReadsIdents (s : State) (idents : List Ident) (t : State) : Prop where
  reads : Reads s [] t
  start : s.Ordered → ∀ i ∈ idents, s.front ≤ i.span.start

lemma ReadsIdents.append {xs ys : List Ident} (h : ReadsIdents s xs t) (h' : ReadsIdents t ys u) :
    ReadsIdents s (xs ++ ys) u := by
  refine ⟨h.reads.append h'.reads,fun hs i hi => ?_⟩
  obtain ⟨ht,-,hfront⟩ := h.reads.follows.order hs
  obtain hi | hi := List.mem_append.mp hi
  · exact h.start hs i hi
  · exact Nat.le_trans hfront (h'.start ht i hi)

lemma ends_nameTail : Ends s.rest nameTail s fun r t => ReadsIdents s r.items t := by
  unfold nameTail
  rw [ends_peek,ends_bind]
  change Ends s.rest (if _ then _ else _) s _
  split
  · have hread : Reads s [] s.advance.advance := .append (.token s) (.token s.advance)
    refine ⟨hread,fun hordered i hi => ?_⟩
    rw [List.mem_singleton.mp hi]
    exact (s.follows_advance.order hordered).2.2
  · exact ⟨.nothing s,by simp⟩

/-- A dotted name has been read. It starts with the first token, which has been taken. -/
structure ReadsName (s : State) (name : QualifiedName) (t : State) : Prop where
  reads : Reads s [] t
  joined : name.joined ≠ ""
  start : name.span.start = s.front
  taken : s.front < t.previousStop

lemma start_of_parts {first : Ident} {later : List Ident}
    (h : ∀ i ∈ later, first.span.start ≤ i.span.start) :
    (QualifiedName.mk (first :: later)).span.start = first.span.start := by
  have hlast := List.getLast_mem (List.cons_ne_nil first later)
  have hle : first.span.start ≤ ((first :: later).getLast (List.cons_ne_nil _ _)).span.start := by
    obtain hlast | hlast := List.mem_cons.mp hlast
    · exact Nat.le_of_eq (by rw [hlast])
    · exact h _ hlast
  simp only [QualifiedName.span,List.head?_cons,List.getLast?_eq_some_getLast (List.cons_ne_nil _ _)]
  exact Nat.min_eq_left hle

lemma joined_ne_empty {first : Ident} (h : first.name ≠ "") (later : List Ident) :
    (QualifiedName.mk (first :: later)).joined ≠ "" := by
  unfold QualifiedName.joined QualifiedName.names
  cases later <;> simp [String.intercalate_cons_cons,h]

/-- A dotted name where a name comes next. -/
lemma ends_qualifiedName (hs : s.Within m) (hname : s.peek.kind = .name) :
    Ends s.rest qualifiedName s (ReadsName s) := by
  have hne := State.rest_ne_nil hs.eof (by simp [hname])
  have hadvance := s.follows_advance
  have htaken := State.front_lt_advance hs.ordered hne
  have htail := ends_collect _ (fun _ _ _ _ _ => ReadsIdents.append) (fun _ _ _ h => h.reads.follows)
    (fun _ _ => ends_nameTail) nameTail_advances (hadvance.within hs)
  unfold qualifiedName identifier
  rw [ends_bind,ends_peek,hname]
  refine (htail.of_suffix hadvance.rest).bind fun later t ht => ?_
  have hordered := (hadvance.order hs.ordered).1
  refine ⟨.append (.token s) ht.reads,joined_ne_empty ?_ later,?_,?_⟩
  · exact hs.texts _ (State.peek_mem hne)
  · refine start_of_parts fun i hi => ?_
    exact Nat.le_trans (hadvance.order hs.ordered).2.2 (ht.start hordered i hi)
  · exact (ht.reads.front_of_taken hordered htaken).1

/-- A single name, if there is one, starts with the first token. -/
lemma ends_identifier (hs : s.Within m) : Ends s.rest identifier s fun name t =>
    Reads s [] t ∧ ∀ i ∈ name, i.span.start = s.front ∧ s.front < t.previousStop := by
  unfold identifier
  rw [ends_peek]
  split
  · rename_i h
    rw [beq_iff_eq] at h
    refine ⟨.token s,?_⟩
    rintro i ⟨⟩
    exact ⟨rfl,State.front_lt_advance hs.ordered (State.rest_ne_nil hs.eof (by simp [h]))⟩
  · exact ⟨.complaint s s.front .expectedIdentifier,by simp⟩

/-- A single name that has been read ends with the last token taken. -/
lemma stop_of_identifier {i : Ident} (heof : s.eof.kind = .eof) (h : identifier s = .ok (some i, t)) :
    i.span.stop = t.previousStop := by
  change (if s.peek.kind == .name then _ else _ : Parser (Option Ident)) s = _ at h
  split at h
  · rename_i hname
    rw [beq_iff_eq] at hname
    cases h
    exact (State.previousStop_advance (State.rest_ne_nil heof (by simp [hname]))).symm
  · cases h

end QmlCodeModel.Grammar
