import QmlCodeModel.Proofs.Text.Slice
import QmlCodeModel.Proofs.Token.Stream

/-! Tokens, comments and faults account for a whole text. They stand in it one behind another, between them
there are only blanks and characters that are reported, and a token knows whether a line ends before it. -/
namespace QmlCodeModel

/-! Characters and parts of a text, by their offsets. -/

/-- The text has this character at an offset. -/
def HasAt (text : List Char) (offset : Nat) (c : Char) : Prop :=
  ∃ before later, text = before ++ c :: later ∧ byteWidth before = offset

/-- The text has this part in a span. -/
def HasPart (text : List Char) (span : Span) (part : List Char) : Prop :=
  ∃ before later, text = before ++ part ++ later ∧
    span = ⟨byteWidth before, byteWidth before + byteWidth part⟩

/-- A line ends between two offsets. -/
def EndsLine (text : List Char) (start stop : Nat) : Prop :=
  ∃ o c, HasAt text o c ∧ isLineTerminator c ∧ start ≤ o ∧ o < stop

variable {done part : List Char} {o : Nat} {c : Char}

lemma HasAt.lt (h : HasAt part o c) : o < byteWidth part := by
  obtain ⟨before,later,rfl,rfl⟩ := h
  have := c.utf8Size_pos
  simp only [byteWidth_append,byteWidth_cons]
  omega

lemma hasAt_append : HasAt (done ++ part) o c ↔
    HasAt done o c ∨ ∃ o', HasAt part o' c ∧ o = byteWidth done + o' := by
  constructor
  · rintro ⟨before,later,htext,rfl⟩
    obtain ⟨gap,rfl,hpart⟩ | ⟨gap,hdone,hlater⟩ := List.append_eq_append_iff.mp htext
    · exact .inr ⟨_,⟨gap,later,hpart,rfl⟩,byteWidth_append _ _⟩
    · cases gap with
      | nil =>
        rw [List.append_nil] at hdone
        exact .inr ⟨0,⟨[],later,hlater.symm,rfl⟩,by rw [hdone]; rfl⟩
      | cons d gap =>
        obtain ⟨rfl,-⟩ := List.cons.inj hlater
        exact .inl ⟨before,gap,hdone,rfl⟩
  · rintro (⟨before,later,rfl,rfl⟩ | ⟨_,⟨before,later,rfl,rfl⟩,rfl⟩)
    · exact ⟨before,later ++ part,by simp,rfl⟩
    · exact ⟨done ++ before,later,by simp,byteWidth_append _ _⟩

lemma hasAt_singleton {d : Char} : HasAt [d] o c ↔ o = 0 ∧ c = d := by
  constructor
  · rintro ⟨before,later,htext,rfl⟩
    cases before with
    | nil =>
      obtain ⟨rfl,-⟩ := List.cons.inj htext
      exact ⟨rfl,rfl⟩
    | cons _ _ => simp at htext
  · rintro ⟨rfl,rfl⟩
    exact ⟨[],[],rfl,rfl⟩

lemma exists_hasAt_iff : (∃ o, HasAt part o c) ↔ c ∈ part := by
  constructor
  · rintro ⟨_,before,later,rfl,-⟩
    simp
  · intro hc
    obtain ⟨before,later,rfl⟩ := List.append_of_mem hc
    exact ⟨_,before,later,rfl,rfl⟩

namespace HasPart

variable {span : Span} {text : List Char}

lemma append (h : HasPart done span text) (part : List Char) : HasPart (done ++ part) span text := by
  obtain ⟨before,later,rfl,hspan⟩ := h
  exact ⟨before,later ++ part,by simp,hspan⟩

lemma last (done part : List Char) :
    HasPart (done ++ part) ⟨byteWidth done, byteWidth done + byteWidth part⟩ part :=
  ⟨done,[],by simp,rfl⟩

lemma stop_le (h : HasPart done span text) : span.stop ≤ byteWidth done := by
  obtain ⟨before,later,rfl,rfl⟩ := h
  simp only [byteWidth_append]
  omega

lemma start_le (h : HasPart done span text) : span.start ≤ byteWidth done := by
  obtain ⟨before,later,rfl,rfl⟩ := h
  simp only [byteWidth_append]
  omega

lemma slice {source : String} (h : HasPart source.toList span text) :
    sliceText? source span = some (String.ofList text) := by
  obtain ⟨before,later,hsource,rfl⟩ := h
  exact HasFrom.slice ⟨before,hsource.trans (List.append_assoc _ _ _),rfl⟩

end HasPart

/-- What comes later ends no line before. -/
lemma endsLine_append_of_le {start stop : Nat} (h : stop ≤ byteWidth done) :
    EndsLine (done ++ part) start stop ↔ EndsLine done start stop := by
  refine exists_congr fun o => exists_congr fun c => ?_
  rw [hasAt_append]
  constructor
  · rintro ⟨hat | ⟨o',-,rfl⟩,hc,hstart,hstop⟩
    · exact ⟨hat,hc,hstart,hstop⟩
    · omega
  · rintro ⟨hat,h⟩
    exact ⟨.inl hat,h⟩

lemma endsLine_append {start : Nat} (h : start ≤ byteWidth done) :
    EndsLine (done ++ part) start (byteWidth (done ++ part)) ↔
      EndsLine done start (byteWidth done) ∨ part.any isLineTerminator := by
  rw [byteWidth_append,List.any_eq_true]
  constructor
  · rintro ⟨o,c,hat,hc,hstart,-⟩
    obtain hat | ⟨o',hat,-⟩ := hasAt_append.mp hat
    · exact .inl ⟨o,c,hat,hc,hstart,hat.lt⟩
    · exact .inr ⟨c,exists_hasAt_iff.mp ⟨o',hat⟩,hc⟩
  · rintro (⟨o,c,hat,hc,hstart,hstop⟩ | ⟨c,hmem,hc⟩)
    · exact ⟨o,c,hasAt_append.mpr (.inl hat),hc,hstart,by omega⟩
    · obtain ⟨o,hat⟩ := exists_hasAt_iff.mpr hmem
      have := hat.lt
      exact ⟨_,c,hasAt_append.mpr (.inr ⟨o,hat,rfl⟩),hc,by omega,by omega⟩

/-! What is known of a text. -/

/-- Where the last of these tokens ends. -/
def lastStop (tokens : List Token) : Nat := (tokens.getLast?.map fun t => t.span.stop).getD 0

/-- A character at an offset is in a token or a comment, is blank, or is reported. -/
def Explained (tokens : List Token) (comments : List Span) (faults : List (Span × LexicalFault)) (o : Nat)
    (c : Char) : Prop :=
  (∃ t ∈ tokens, t.span.contains o) ∨ (∃ span ∈ comments, span.contains o) ∨ CharClass.blank.contains c ∨
    c = '\ufeff' ∨ (⟨o, o + c.utf8Size⟩, .unexpectedCharacter c) ∈ faults

/-- The text is cut into tokens and comments, and what is between them. -/
structure Accounts (text : List Char) (tokens : List Token) (comments : List Span)
    (faults : List (Span × LexicalFault)) : Prop where
  /-- Tokens have the texts that stand in their spans. -/
  texts : ∀ t ∈ tokens, HasPart text t.span t.text.toList
  proper : ∀ t ∈ tokens, t.kind ≠ .eof ∧ t.text ≠ ""
  remarks : ∀ span ∈ comments, ∃ part, HasPart text span part
  ordered : tokens.Pairwise fun t u => t.span.stop ≤ u.span.start
  orderedRemarks : comments.Pairwise fun r s => r.stop ≤ s.start
  apart : ∀ t ∈ tokens, ∀ r ∈ comments, t.span.stop ≤ r.start ∨ r.stop ≤ t.span.start
  explained : ∀ o c, HasAt text o c → Explained tokens comments faults o c
  /-- A token says that a line ends before it exactly if one ends between it and the token before. -/
  lines : ∀ before t later, tokens = before ++ t :: later →
    (t.newlineBefore = true ↔ EndsLine text (lastStop before) t.span.start)

lemma Explained.mono {tokens tokens' : List Token} {comments comments' : List Span}
    {faults faults' : List (Span × LexicalFault)} (h : Explained tokens comments faults o c)
    (htokens : tokens ⊆ tokens') (hcomments : comments ⊆ comments') (hfaults : faults ⊆ faults') :
    Explained tokens' comments' faults' o c := by
  obtain ⟨t,ht,ho⟩ | ⟨r,hr,ho⟩ | h | h | h := h
  · exact .inl ⟨t,htokens ht,ho⟩
  · exact .inr (.inl ⟨r,hcomments hr,ho⟩)
  · exact .inr (.inr (.inl h))
  · exact .inr (.inr (.inr (.inl h)))
  · exact .inr (.inr (.inr (.inr (hfaults h))))

namespace Accounts

variable {tokens : List Token} {comments : List Span} {faults faults' : List (Span × LexicalFault)}

lemma nil : Accounts [] [] [] [] := by
  refine ⟨by simp,by simp,by simp,.nil,.nil,by simp,?_,by simp⟩
  rintro o c ⟨before,later,htext,-⟩
  simp at htext

lemma stop_le (h : Accounts done tokens comments faults) {t : Token} (ht : t ∈ tokens) :
    t.span.stop ≤ byteWidth done :=
  (h.texts t ht).stop_le

lemma remark_stop_le (h : Accounts done tokens comments faults) {r : Span} (hr : r ∈ comments) :
    r.stop ≤ byteWidth done := by
  obtain ⟨text,hstands⟩ := h.remarks r hr
  exact hstands.stop_le

lemma lastStop_le (h : Accounts done tokens comments faults) : lastStop tokens ≤ byteWidth done := by
  unfold lastStop
  cases hlast : tokens.getLast? with
  | none => exact Nat.zero_le _
  | some t => exact h.stop_le (List.mem_of_getLast? hlast)

/-! What is known stays true when the text goes on. -/

lemma remarks_append (h : Accounts done tokens comments faults) (part : List Char) {r : Span}
    (hr : r ∈ comments) : ∃ text, HasPart (done ++ part) r text := by
  obtain ⟨text,htext⟩ := h.remarks r hr
  exact ⟨text,htext.append part⟩

lemma explained_append (h : Accounts done tokens comments faults) {tokens' : List Token}
    {comments' : List Span} (htokens : tokens ⊆ tokens') (hcomments : comments ⊆ comments')
    (hfaults : faults ⊆ faults')
    (hpart : ∀ o c, HasAt part o c → Explained tokens' comments' faults' (byteWidth done + o) c) (o : Nat)
    (c : Char) (hat : HasAt (done ++ part) o c) : Explained tokens' comments' faults' o c := by
  obtain hold | ⟨o',hnew,rfl⟩ := hasAt_append.mp hat
  · exact (h.explained o c hold).mono htokens hcomments hfaults
  · exact hpart o' c hnew

lemma lines_append (h : Accounts done tokens comments faults) (part : List Char) {before later : List Token}
    {t : Token} (htokens : tokens = before ++ t :: later) :
    t.newlineBefore = true ↔ EndsLine (done ++ part) (lastStop before) t.span.start := by
  have ht : t ∈ tokens := htokens ▸ List.mem_append_right _ List.mem_cons_self
  rw [endsLine_append_of_le (h.texts t ht).start_le]
  exact h.lines before t later htokens

/-! What can be new: a character without a token, a comment or a token. -/

/-- A character that needs no token. -/
lemma char (h : Accounts done tokens comments faults) (hfaults : faults ⊆ faults')
    (hc : Explained tokens comments faults' (byteWidth done) c) :
    Accounts (done ++ [c]) tokens comments faults' := by
  refine ⟨fun t ht => (h.texts t ht).append [c],h.proper,fun r => h.remarks_append [c],h.ordered,
    h.orderedRemarks,h.apart,?_,fun before t later => h.lines_append [c]⟩
  refine h.explained_append (List.Subset.refl _) (List.Subset.refl _) hfaults fun o d hat => ?_
  obtain ⟨rfl,rfl⟩ := hasAt_singleton.mp hat
  exact hc

/-- What stands behind all that is known so far is new. -/
lemma contains_last (hat : HasAt part o c) :
    (Span.mk (byteWidth done) (byteWidth done + byteWidth part)).contains (byteWidth done + o) := by
  have := hat.lt
  exact Span.contains_iff.mpr ⟨Nat.le_add_right _ _,Nat.add_lt_add_left this _⟩

lemma comment (h : Accounts done tokens comments faults) (hfaults : faults ⊆ faults') :
    Accounts (done ++ part) tokens (comments ++ [⟨byteWidth done, byteWidth done + byteWidth part⟩])
      faults' := by
  refine ⟨fun t ht => (h.texts t ht).append part,h.proper,?_,h.ordered,?_,?_,?_,
    fun before t later => h.lines_append part⟩
  · intro r hr
    obtain hr | hr := List.mem_append.mp hr
    · exact h.remarks_append part hr
    · rw [List.mem_singleton.mp hr]
      exact ⟨part,.last done part⟩
  · refine List.pairwise_append.mpr ⟨h.orderedRemarks,List.pairwise_singleton _ _,fun r hr s hs => ?_⟩
    rw [List.mem_singleton.mp hs]
    exact h.remark_stop_le hr
  · intro t ht r hr
    obtain hr | hr := List.mem_append.mp hr
    · exact h.apart t ht r hr
    · rw [List.mem_singleton.mp hr]
      exact .inl (h.stop_le ht)
  · refine h.explained_append (List.Subset.refl _) (List.subset_append_left _ _) hfaults fun o c hat => ?_
    exact .inr (.inl ⟨_,List.mem_append_right _ (List.mem_singleton_self _),contains_last hat⟩)

lemma token (h : Accounts done tokens comments faults) (hfaults : faults ⊆ faults') {kind : TokenKind}
    {newline : Bool} (hkind : kind ≠ .eof) (hpart : part ≠ [])
    (hnewline : newline = true ↔ EndsLine done (lastStop tokens) (byteWidth done)) :
    Accounts (done ++ part) (tokens ++
      [⟨kind, ⟨byteWidth done, byteWidth done + byteWidth part⟩, String.ofList part, newline⟩]) comments
      faults' := by
  refine ⟨?_,?_,fun r => h.remarks_append part,?_,h.orderedRemarks,?_,?_,?_⟩
  · intro t ht
    obtain ht | ht := List.mem_append.mp ht
    · exact (h.texts t ht).append part
    · rw [List.mem_singleton.mp ht,String.toList_ofList]
      exact .last done part
  · intro t ht
    obtain ht | ht := List.mem_append.mp ht
    · exact h.proper t ht
    · rw [List.mem_singleton.mp ht]
      exact ⟨hkind,fun hnone => hpart (String.ofList_injective hnone)⟩
  · refine List.pairwise_append.mpr ⟨h.ordered,List.pairwise_singleton _ _,fun t ht u hu => ?_⟩
    rw [List.mem_singleton.mp hu]
    exact h.stop_le ht
  · intro t ht r hr
    obtain ht | ht := List.mem_append.mp ht
    · exact h.apart t ht r hr
    · rw [List.mem_singleton.mp ht]
      exact .inr (h.remark_stop_le hr)
  · refine h.explained_append (List.subset_append_left _ _) (List.Subset.refl _) hfaults fun o c hat => ?_
    exact .inl ⟨_,List.mem_append_right _ (List.mem_singleton_self _),contains_last hat⟩
  · intro before t later htokens
    -- the token is the new one if none stands behind it
    obtain rfl | ⟨known,u,rfl⟩ := List.eq_nil_or_concat later
    · obtain ⟨rfl,ht⟩ := List.append_inj' htokens rfl
      rw [← List.singleton_inj.mp ht,endsLine_append_of_le (Nat.le_refl _)]
      exact hnewline
    · rw [List.concat_eq_append,← List.cons_append,← List.append_assoc] at htokens
      exact h.lines_append part (List.append_inj_left' htokens rfl)

end Accounts

/-! What the lexemes of a text are. -/

/-- What can follow a lexeme, and of what characters it is made. -/
inductive Lexeme.Precedes : Lexeme → List Char → Prop
  | blank {c : Char} (rest : List Char) (blank : CharClass.blank.contains c ∨ c = '\ufeff')
      (line : isLineTerminator c = false) : Precedes (.blank c) rest
  | lineBreak {c : Char} (rest : List Char) (line : isLineTerminator c) : Precedes (.lineBreak c) rest
  | comment (text rest : List Char) : Precedes (.comment text true) rest
  /-- A comment without an end is the last lexeme. -/
  | openComment (text : List Char) : Precedes (.comment text false) []
  | stray {c : Char} (rest : List Char) (line : isLineTerminator c = false) : Precedes (.stray c) rest
  | token {kind : TokenKind} {text : List Char} (faults : List (LexicalFault × Nat)) (rest : List Char)
      (within : kind ≠ .eof) (written : text ≠ []) : Precedes (.token kind text faults) rest

lemma rest_readBlockComment {text : List Char} (h : (readBlockComment text).closed = false) :
    (readBlockComment text).rest = [] := by
  fun_induction readBlockComment text with
  | case1 => rfl
  | case2 => cases h
  | case3 c rest _ ih => exact ih h

lemma precedes_readComment {text : List Char} {reading : Lexeme × List Char}
    (h : readComment text = some reading) : reading.1.Precedes reading.2 := by
  revert h
  fun_cases readComment text with
  | case1 rest =>
    rintro ⟨⟩
    exact .comment _ _
  | case2 rest cut =>
    rintro ⟨⟩
    change Lexeme.Precedes (.comment _ cut.closed) cut.rest
    cases hclosed : cut.closed with
    | true => exact .comment _ _
    | false =>
      rw [rest_readBlockComment hclosed]
      exact .openComment _
  | case3 => rintro ⟨⟩

lemma precedes_readLexeme (allowed : Bool) (c : Char) (rest : List Char) :
    (readLexeme allowed c rest).1.Precedes (readLexeme allowed c rest).2 := by
  have hne := (isReading_readLexeme allowed c rest).2
  have hwithin := within_readLexeme allowed c rest
  unfold readLexeme at *
  split
  · exact .lineBreak _ ‹_›
  rename_i hline
  rw [Bool.not_eq_true] at hline
  split
  · rename_i hblank
    exact .blank _ (by simpa using hblank) hline
  rename_i hsolid
  rw [if_neg (Bool.not_eq_true _ ▸ hline),if_neg hsolid] at hne hwithin
  cases h : readComment (c :: rest) with
  | some reading => exact precedes_readComment h
  | none =>
    rw [h,Option.getD_none] at hne hwithin
    rw [Option.getD_none]
    -- a stray character is the first one, and all other lexemes that are left are tokens
    obtain ⟨kind,text,faults,htoken⟩ | hstray :
        (∃ kind text faults, (readToken allowed c rest).1 = .token kind text faults) ∨
          (readToken allowed c rest).1 = .stray c := by
      unfold readToken Lexeme.ofCut
      repeat' split
      all_goals first | exact .inl ⟨_,_,_,rfl⟩ | exact .inr rfl
    · rw [htoken] at hne ⊢
      exact .token _ _ (hwithin _ _ _ htoken) hne
    · rw [hstray]
      exact .stray _ hline

lemma blank_of_isLineTerminator (h : isLineTerminator c) : CharClass.blank.contains c := by
  simp only [isLineTerminator,Bool.or_eq_true,beq_iff_eq] at h
  obtain ((rfl | rfl) | rfl) | rfl := h <;> decide

namespace TokenStream

/-- A text has been read, and the stream accounts for it. -/
structure HasRead (s : TokenStream) (done : List Char) : Prop where
  accounts : Accounts done s.tokens.toList s.comments.toList s.faults.toList
  position : s.position = byteWidth done

/-- The stream knows whether a line ends behind its last token. -/
def KnowsLine (s : TokenStream) (done : List Char) : Prop :=
  s.newline = true ↔ EndsLine done (lastStop s.tokens.toList) (byteWidth done)

variable {s : TokenStream}

/-- One more lexeme. -/
theorem HasRead.add (h : s.HasRead done) (hline : s.KnowsLine done) {l : Lexeme} {rest : List Char}
    (hl : l.Precedes rest) :
    (s.add l).HasRead (done ++ l.text) ∧ (rest ≠ [] → (s.add l).KnowsLine (done ++ l.text)) := by
  have hknows {newline : Bool} (part : List Char) (hnewline : newline = (s.newline || part.any isLineTerminator)) :
      newline = true ↔ EndsLine (done ++ part) (lastStop s.tokens.toList) (byteWidth (done ++ part)) := by
    rw [endsLine_append h.accounts.lastStop_le,hnewline,Bool.or_eq_true]
    exact or_congr_left hline
  have hwidth (c : Char) : s.position + c.utf8Size = byteWidth (done ++ [c]) := by
    rw [byteWidth_append,h.position]
    rfl
  cases hl with
  | blank rest hblank hc =>
    refine ⟨⟨h.accounts.char (List.Subset.refl _) ?_,hwidth _⟩,fun _ => hknows [_] (by simp [TokenStream.add,hc])⟩
    exact .inr (.inr (hblank.imp id .inl))
  | lineBreak rest hc =>
    refine ⟨⟨h.accounts.char (List.Subset.refl _) ?_,hwidth _⟩,fun _ => hknows [_] (by simp [TokenStream.add,hc])⟩
    exact .inr (.inr (.inl (blank_of_isLineTerminator hc)))
  | @stray c rest hc =>
    refine ⟨⟨?_,hwidth _⟩,fun _ => hknows [_] (by simp [TokenStream.add,hc])⟩
    change Accounts _ _ _ (s.faults.push _).toList
    rw [Array.toList_push]
    refine h.accounts.char (List.subset_append_left _ _) (.inr (.inr (.inr (.inr ?_))))
    rw [h.position]
    exact List.mem_append_right _ (List.mem_singleton_self _)
  | comment text rest =>
    refine ⟨⟨?_,?_⟩,fun _ => hknows text rfl⟩
    · change Accounts _ _ (s.comments.push _).toList _
      rw [Array.toList_push,h.position]
      exact h.accounts.comment (List.Subset.refl _)
    · change s.position + byteWidth text = _
      rw [h.position,byteWidth_append]
      rfl
  | openComment text =>
    refine ⟨⟨?_,?_⟩,fun hrest => absurd rfl hrest⟩
    · change Accounts _ _ (s.comments.push _).toList (s.faults.push _).toList
      rw [Array.toList_push,Array.toList_push,h.position]
      exact h.accounts.comment (List.subset_append_left _ _)
    · change s.position + byteWidth text = _
      rw [h.position,byteWidth_append]
      rfl
  | @token kind text faults rest hkind htext =>
    have hwidth : s.position + byteWidth text = byteWidth (done ++ text) := by
      rw [h.position,byteWidth_append]
    refine ⟨⟨?_,hwidth⟩,fun _ => ?_⟩
    · have hfaults : s.faults.toList ⊆ (s.add (.token kind text faults)).faults.toList := by
        intro f hf
        simp only [TokenStream.add,addToken,Array.toList_appendList]
        exact List.mem_append_left _ hf
      have htokens : (s.add (.token kind text faults)).tokens.toList = s.tokens.toList ++ [⟨kind,
          ⟨byteWidth done, byteWidth done + byteWidth text⟩, String.ofList text, s.newline⟩] := by
        rw [← h.position]
        exact Array.toList_push
      rw [htokens]
      exact h.accounts.token hfaults hkind htext hline
    · have hlast : lastStop (s.add (.token kind text faults)).tokens.toList = byteWidth (done ++ text) := by
        change lastStop (s.tokens.push _).toList = _
        rw [Array.toList_push,lastStop,List.getLast?_concat]
        exact hwidth
      unfold KnowsLine
      rw [hlast]
      refine iff_of_false Bool.false_ne_true ?_
      rintro ⟨o,c,-,-,hle,hlt⟩
      exact Nat.not_lt_of_le hle hlt

/-- By induction on the lexemes: in the end the whole text has been read. -/
theorem HasRead.foldl (allowed : Bool) (rest : List Char) (h : s.HasRead done)
    (hline : rest ≠ [] → s.KnowsLine done) :
    ((lexemesFrom allowed rest).foldl TokenStream.add s).HasRead (done ++ rest) := by
  fun_induction lexemesFrom allowed rest generalizing s done with
  | case1 =>
    rw [List.append_nil]
    exact h
  | case2 allowed c rest ih =>
    obtain ⟨hnext,hlater⟩ := h.add (hline (List.cons_ne_nil _ _)) (precedes_readLexeme allowed c rest)
    have hsplit := (isReading_readLexeme allowed c rest).1
    rw [List.foldl_cons,← hsplit,← List.append_assoc]
    exact ih hnext hlater

end TokenStream

/-- Tokens, comments and faults account for every source, and the last token is its end. -/
theorem accounts_tokenize (source : String) : ∃ tokens eof,
    (tokenize source.toList).tokens.toList = tokens ++ [eof] ∧
    eof.kind = .eof ∧ eof.span = ⟨byteWidth source.toList, byteWidth source.toList⟩ ∧
    (∀ t ∈ tokens ++ [eof], sliceText? source t.span = some t.text) ∧
    (∀ t ∈ tokens, t.span.stop ≤ eof.span.start) ∧
    (∀ r ∈ (tokenize source.toList).comments.toList, (sliceText? source r).isSome ∧ r.stop ≤ eof.span.start) ∧
    Accounts source.toList tokens (tokenize source.toList).comments.toList
      (tokenize source.toList).faults.toList := by
  have hstart : ({} : TokenStream).HasRead [] := ⟨.nil,rfl⟩
  have hline : ({} : TokenStream).KnowsLine [] :=
    iff_of_false nofun fun ⟨o,c,_,_,_,hlt⟩ => Nat.not_lt_zero o hlt
  have hread : ((lexemes source.toList).foldl TokenStream.add {}).HasRead ([] ++ source.toList) :=
    hstart.foldl true source.toList fun _ => hline
  obtain ⟨haccounts,hposition⟩ := hread
  rw [List.nil_append] at haccounts hposition
  refine ⟨_,_,Array.toList_push,rfl,?_,?_,?_,?_,?_⟩
  · rw [byteWidth_nil,Nat.add_zero,hposition]
  · intro t ht
    obtain ht | ht := List.mem_append.mp ht
    · rw [(haccounts.texts t ht).slice,String.ofList_toList]
    · rw [List.mem_singleton.mp ht]
      have hend : HasPart source.toList ⟨byteWidth source.toList, byteWidth source.toList⟩ [] :=
        ⟨source.toList,[],by simp,rfl⟩
      rw [byteWidth_nil,Nat.add_zero,hposition]
      exact hend.slice
  · intro t ht
    rw [hposition]
    exact haccounts.stop_le ht
  · intro r hr
    obtain ⟨part,hstands⟩ := haccounts.remarks r hr
    rw [hposition]
    exact ⟨by rw [hstands.slice]; rfl,hstands.stop_le⟩
  · exact haccounts

end QmlCodeModel
