import Mathlib.Data.List.Forall2
import QmlCodeModel.Proofs.Token.Reread
import QmlCodeModel.Proofs.Token.Stream

/-! The tokens of a text, written with one character before each, are read again as they are. Texts of one token
are told from the others by what is read of them. -/
namespace QmlCodeModel

/-- Tokens that differ in their places only. It does not matter whether a line ends before the end. -/
def Token.Like (t u : Token) : Prop :=
  t.kind = u.kind ∧ t.text = u.text ∧ (t.kind ≠ .eof → t.newlineBefore = u.newlineBefore)

/-- A token without its place. -/
structure Mention where
  newline : Bool
  kind : TokenKind
  text : List Char

namespace Mention

/-- What is written before a token: the end of a line if one ends there, and else a blank. -/
def gap (m : Mention) : Char := if m.newline then '\n' else ' '

def chars (m : Mention) : List Char := m.gap :: m.text

def lexemes (m : Mention) : List Lexeme :=
  [if m.newline then .lineBreak m.gap else .blank m.gap, .token m.kind m.text []]

end Mention

def Token.mention (t : Token) : Mention := ⟨t.newlineBefore,t.kind,t.text.toList⟩

/-- The tokens before the end, each behind a blank or the end of a line. -/
def TokenStream.normalized (s : TokenStream) : List Char :=
  (s.tokens.toList.filter (·.kind != .eof)).flatMap fun t => t.mention.chars

/-- Nothing is wrong with a lexeme. -/
def Lexeme.Faultless : Lexeme → Prop
  | .blank _ | .lineBreak _ => True
  | .comment _ closed => closed
  | .stray _ => False
  | .token _ _ faults => faults = []

/-- Whether a line has ended since the last token, behind one more lexeme. -/
def Lexeme.newlineAfter (before : Bool) : Lexeme → Bool
  | .blank _ | .stray _ => before
  | .lineBreak _ => true
  | .comment text closed => before || (closed && text.any isLineTerminator)
  | .token _ _ _ => false

/-- The token that a lexeme is. -/
def Lexeme.mention (newline : Bool) : Lexeme → List Mention
  | .token kind text _ => [⟨newline,kind,text⟩]
  | _ => []

/-- The tokens among lexemes. -/
def mentions (newline : Bool) : List Lexeme → List Mention
  | [] => []
  | l :: ls => l.mention newline ++ mentions (l.newlineAfter newline) ls

lemma mentions_token (newline : Bool) (kind : TokenKind) (text : List Char) (ls : List Lexeme) :
    mentions newline (.token kind text [] :: ls) = ⟨newline,kind,text⟩ :: mentions false ls := rfl

namespace TokenStream

variable {s : TokenStream} {ls : List Lexeme}

lemma faultless_of_add {l : Lexeme} (h : (s.add l).faults = #[]) : s.faults = #[] ∧ l.Faultless := by
  cases l with
  | blank c => exact ⟨h,trivial⟩
  | lineBreak c => exact ⟨h,trivial⟩
  | stray c => simp [add] at h
  | comment text closed =>
    cases closed with
    | true => exact ⟨h,rfl⟩
    | false => simp [add,addComment] at h
  | token kind text faults =>
    have hnone := congrArg Array.toList h
    simp only [add,addToken,Array.toList_appendList,List.append_eq_nil_iff,List.map_eq_nil_iff] at hnone
    exact ⟨Array.toList_inj.mp hnone.1,hnone.2⟩

lemma faultless_of_foldl (h : (ls.foldl add s).faults = #[]) : s.faults = #[] ∧ ∀ l ∈ ls, l.Faultless := by
  induction ls generalizing s with
  | nil => exact ⟨h,by simp⟩
  | cons l ls ih =>
    obtain ⟨hadd,hlater⟩ := ih h
    obtain ⟨hfaults,hl⟩ := faultless_of_add hadd
    exact ⟨hfaults,List.forall_mem_cons.mpr ⟨hl,hlater⟩⟩

/-- By induction on the lexemes: reading adds the tokens among them. -/
lemma mention_foldl (s : TokenStream) (ls : List Lexeme) : (ls.foldl add s).tokens.toList.map Token.mention =
    s.tokens.toList.map Token.mention ++ mentions s.newline ls := by
  induction ls generalizing s with
  | nil => simp [mentions]
  | cons l ls ih =>
    have hadd : (s.add l).tokens.toList.map Token.mention =
        s.tokens.toList.map Token.mention ++ l.mention s.newline := by
      cases l with
      | token kind text faults => simp [add,addToken,Lexeme.mention,Token.mention]
      | _ => simp [add,addComment,Lexeme.mention]
    have hnewline : (s.add l).newline = l.newlineAfter s.newline := by cases l <;> rfl
    rw [List.foldl_cons,ih,hadd,hnewline,List.append_assoc]
    rfl

end TokenStream

/-! The text of tokens. -/

lemma parted_chars (ms : List Mention) : Parted (ms.flatMap Mention.chars) := by
  cases ms with
  | nil => simp [Parted]
  | cons m ms =>
    intro d hd
    obtain rfl : m.gap = d := by simpa [Mention.chars] using hd
    unfold Mention.gap
    split
    · exact .inr rfl
    · exact .inl rfl

lemma lexemesFrom_mention (allowed : Bool) (m : Mention) (tail : List Char) :
    lexemesFrom allowed (m.gap :: tail) =
      (if m.newline then Lexeme.lineBreak m.gap else .blank m.gap) :: lexemesFrom allowed tail := by
  unfold Mention.gap
  rw [lexemesFrom]
  split <;> rfl

/-- By induction on the lexemes of a text: its tokens are read again from what is written of them. -/
theorem lexemesFrom_mentions (allowed newline : Bool) (text : List Char)
    (h : ∀ l ∈ lexemesFrom allowed text, l.Faultless) :
    lexemesFrom allowed ((mentions newline (lexemesFrom allowed text)).flatMap Mention.chars) =
      (mentions newline (lexemesFrom allowed text)).flatMap Mention.lexemes := by
  fun_induction lexemesFrom allowed text generalizing newline with
  | case1 => simp [mentions,lexemesFrom]
  | case2 allowed c rest ih =>
    obtain ⟨htext,hne⟩ := isReading_readLexeme allowed c rest
    rcases hread : readLexeme allowed c rest with ⟨l,after⟩
    simp only [hread] at h htext hne ih ⊢
    obtain ⟨hfirst,hlater⟩ := List.forall_mem_cons.mp h
    cases l with
    | token kind text faults =>
      obtain rfl : faults = [] := hfirst
      obtain ⟨d,cs,rfl⟩ := List.exists_cons_of_ne_nil hne
      obtain ⟨rfl,rfl⟩ := List.cons.inj htext
      have hm := mentions_token newline kind (d :: cs)
        (lexemesFrom ((Lexeme.token kind (d :: cs) []).regExpAllowed allowed) after)
      have htail := ih false hlater
      generalize mentions false (lexemesFrom _ after) = ms at hm htail
      have hagain := readLexeme_again hread (parted_chars ms)
      rw [hm,List.flatMap_cons,List.flatMap_cons,← htail]
      change lexemesFrom allowed (_ :: d :: (cs ++ _)) = _
      rw [lexemesFrom_mention,lexemesFrom,hagain]
      rfl
    | _ => exact ih _ hlater

/-! The tokens of a text. -/

lemma mentions_lexemes (ms : List Mention) : mentions false (ms.flatMap Mention.lexemes) = ms := by
  induction ms with
  | nil => rfl
  | cons m ms ih =>
    obtain ⟨newline,kind,text⟩ := m
    rw [List.flatMap_cons]
    cases newline with
    | true => exact congrArg _ ih
    | false => exact congrArg _ ih

namespace TokenStream

/-- Tokens behind blanks and line ends add no comments and no faults. -/
lemma foldl_lexemes (ms : List Mention) (s : TokenStream) :
    ((ms.flatMap Mention.lexemes).foldl add s).comments = s.comments ∧
      ((ms.flatMap Mention.lexemes).foldl add s).faults = s.faults := by
  induction ms generalizing s with
  | nil => exact ⟨rfl,rfl⟩
  | cons m ms ih =>
    rw [List.flatMap_cons,List.foldl_append,(ih _).1,(ih _).2]
    cases hm : m.newline <;> simp [Mention.lexemes,hm,add,addToken]

end TokenStream

/-- The tokens of a text are those among its lexemes, and the end. -/
lemma tokens_tokenize_mentions (text : List Char) : ∃ tokens eof,
    (tokenize text).tokens.toList = tokens ++ [eof] ∧ eof.kind = .eof ∧ eof.text = "" ∧
      (∀ t ∈ tokens, t.kind ≠ .eof) ∧ tokens.map Token.mention = mentions false (lexemes text) := by
  have hkinds := kinds_tokenize text
  have hmentions := TokenStream.mention_foldl {} (lexemes text)
  refine ⟨_,_,Array.toList_push,rfl,rfl,?_,hmentions⟩
  rwa [show (tokenize text).tokens.toList = _ from Array.toList_push,List.dropLast_concat] at hkinds

lemma normalized_tokenize (text : List Char) :
    (tokenize text).normalized = (mentions false (lexemes text)).flatMap Mention.chars := by
  obtain ⟨tokens,eof,htokens,heof,-,hkinds,hmentions⟩ := tokens_tokenize_mentions text
  have hfilter : (tokens ++ [eof]).filter (·.kind != .eof) = tokens := by
    rw [List.filter_append,List.filter_eq_self.mpr fun t ht => bne_iff_ne.mpr (hkinds t ht)]
    simp [heof]
  rw [TokenStream.normalized,htokens,hfilter,← hmentions,List.flatMap_map]

lemma like_of_mention {t u : Token} (h : t.mention = u.mention) : t.Like u := by
  simp only [Token.mention,Mention.mk.injEq] at h
  exact ⟨h.2.1,String.toList_inj.mp h.2.2,fun _ => h.1⟩

lemma faultless_lexemes {text : List Char} (h : (tokenize text).faults = #[]) :
    ∀ l ∈ lexemes text, l.Faultless := by
  have hfaults : ((lexemes text).foldl TokenStream.add {}).faults = #[] := by
    simpa [tokenize,TokenStream.finish,TokenStream.addToken] using h
  exact (TokenStream.faultless_of_foldl hfaults).2

/-- Writing the tokens of a faultless text with one character before each, and reading them again, gives
the same tokens, and no comments and no faults. -/
theorem tokenize_normalized (text : List Char) (h : (tokenize text).faults = #[]) :
    (tokenize (tokenize text).normalized).faults = #[] ∧
      (tokenize (tokenize text).normalized).comments = #[] ∧
      List.Forall₂ Token.Like (tokenize (tokenize text).normalized).tokens.toList
        (tokenize text).tokens.toList := by
  have hlexemes : lexemes (tokenize text).normalized = (mentions false (lexemes text)).flatMap Mention.lexemes := by
    rw [normalized_tokenize]
    exact lexemesFrom_mentions true false text (faultless_lexemes h)
  obtain ⟨hcomments,hfaults⟩ := TokenStream.foldl_lexemes (mentions false (lexemes text)) {}
  refine ⟨?_,?_,?_⟩
  · rw [tokenize,hlexemes]
    simpa [TokenStream.finish,TokenStream.addToken] using hfaults
  · rw [tokenize,hlexemes]
    exact hcomments
  · obtain ⟨tokens,eof,htokens,hkind,htext,-,hmentions⟩ := tokens_tokenize_mentions text
    obtain ⟨again,eof',hagain,hkind',htext',-,hmentions'⟩ := tokens_tokenize_mentions (tokenize text).normalized
    rw [hlexemes,mentions_lexemes,← hmentions] at hmentions'
    rw [htokens,hagain]
    have hlast : eof'.Like eof := ⟨hkind'.trans hkind.symm,htext'.trans htext.symm,fun hne => absurd hkind' hne⟩
    refine List.rel_append ?_ (.cons hlast .nil)
    rw [← List.forall₂_eq_eq_eq] at hmentions'
    exact (List.forall₂_map_left_iff.mp (List.forall₂_map_right_iff.mp hmentions')).imp fun _ _ => like_of_mention

/-- A comment goes, and the slashes keep their two meanings. -/
theorem tokenize_normalized_slashes :
    (tokenize "a / b /* c */\n?.5:f(/x y/g)".toList).faults = #[] ∧
      (tokenize "a / b /* c */\n?.5:f(/x y/g)".toList).normalized = " a / b\n? .5 : f ( /x y/g )".toList ∧
      List.Forall₂ Token.Like (tokenize (tokenize "a / b /* c */\n?.5:f(/x y/g)".toList).normalized).tokens.toList
        (tokenize "a / b /* c */\n?.5:f(/x y/g)".toList).tokens.toList :=
  ⟨by decide +kernel,by decide +kernel,(tokenize_normalized _ (by decide +kernel)).2.2⟩

end QmlCodeModel

/-! Texts that are read as one token, with which nothing is wrong. -/
namespace QmlCodeModel

/-- One token of a kind covers the whole text, nothing is wrong with it, and behind it stands the end. -/
def TokenStream.IsSingle (s : TokenStream) (kind : TokenKind) (text : List Char) : Prop :=
  s.tokens = #[⟨kind, ⟨0, byteWidth text⟩, String.ofList text, false⟩,
    ⟨.eof, ⟨byteWidth text, byteWidth text⟩, "", false⟩] ∧ s.faults = #[]

instance (s : TokenStream) (kind : TokenKind) (text : List Char) : Decidable (s.IsSingle kind text) :=
  inferInstanceAs (Decidable (_ ∧ _))

/-- A text is read as one token of a kind. -/
def IsToken (kind : TokenKind) (text : List Char) : Prop := (tokenize text).IsSingle kind text

instance (kind : TokenKind) (text : List Char) : Decidable (IsToken kind text) :=
  inferInstanceAs (Decidable (TokenStream.IsSingle _ _ _))

lemma exists_of_mem_mentions {m : Mention} {newline : Bool} {ls : List Lexeme} (h : m ∈ mentions newline ls) :
    ∃ faults, .token m.kind m.text faults ∈ ls := by
  induction ls generalizing newline with
  | nil => simp [mentions] at h
  | cons l ls ih =>
    obtain hm | hm := List.mem_append.mp h
    · cases l with
      | token kind text faults =>
        obtain rfl := List.mem_singleton.mp hm
        exact ⟨faults,List.mem_cons_self⟩
      | _ => simp [Lexeme.mention] at hm
    · obtain ⟨faults,hfaults⟩ := ih hm
      exact ⟨faults,List.mem_cons_of_mem l hfaults⟩

/-- A lexeme that is all of the text is the only one. -/
lemma eq_singleton_of_mem {l : Lexeme} {ls : List Lexeme} (hl : l ∈ ls) (hne : ∀ m ∈ ls, m.text ≠ [])
    (htext : ls.flatMap Lexeme.text = l.text) : ls = [l] := by
  have hnil : ∀ ms ⊆ ls, ms.flatMap Lexeme.text = [] → ms = [] := by
    intro ms hsub hms
    refine List.eq_nil_iff_forall_not_mem.mpr fun m hm => ?_
    exact hne m (hsub hm) (List.flatMap_eq_nil_iff.mp hms m hm)
  obtain ⟨before,after,rfl⟩ := List.append_of_mem hl
  have hlength := congrArg List.length htext
  simp only [List.flatMap_append,List.flatMap_cons,List.length_append] at hlength
  have hbefore := hnil before (by simp) (List.length_eq_zero_iff.mp (by omega))
  have hafter := hnil after (fun m hm => by simp [hm]) (List.length_eq_zero_iff.mp (by omega))
  rw [hbefore,hafter,List.nil_append]

/-- A text is one token exactly if it is one lexeme that is a token without a fault. -/
theorem isToken_iff {kind : TokenKind} {text : List Char} :
    IsToken kind text ↔ lexemes text = [.token kind text []] := by
  constructor
  · rintro ⟨htokens,hfaults⟩
    obtain ⟨tokens,eof,hall,-,-,-,hmentions⟩ := tokens_tokenize_mentions text
    rw [htokens] at hall
    obtain ⟨rfl,-⟩ := @List.append_inj' _ [_] _ _ _ hall rfl
    have hmention : Mention.mk false kind text ∈ mentions false (lexemes text) := by
      rw [← hmentions]
      simp [Token.mention]
    obtain ⟨faults,hmem⟩ := exists_of_mem_mentions hmention
    obtain rfl : faults = [] := faultless_lexemes hfaults _ hmem
    exact eq_singleton_of_mem hmem (fun l hl => text_ne_nil_of_mem_lexemesFrom hl) (flatMap_text_lexemes text)
  · intro h
    rw [IsToken,tokenize,h]
    simp [TokenStream.IsSingle,TokenStream.add,TokenStream.addToken,TokenStream.finish]

/-- A text is one token exactly if its first lexeme is. -/
lemma isToken_cons_iff {kind : TokenKind} {c : Char} {rest : List Char} :
    IsToken kind (c :: rest) ↔ readLexeme true c rest = (.token kind (c :: rest) [],[]) := by
  rw [isToken_iff,lexemes,lexemesFrom,List.cons.injEq]
  constructor
  · rintro ⟨hfirst,hlater⟩
    refine Prod.ext hfirst ?_
    cases hrest : (readLexeme true c rest).2 with
    | nil => rfl
    | cons d later =>
      rw [hrest,lexemesFrom] at hlater
      cases hlater
  · intro h
    rw [h,lexemesFrom]
    exact ⟨rfl,rfl⟩

lemma readToken_of_isToken {kind : TokenKind} {c : Char} {rest : List Char} (h : IsToken kind (c :: rest)) :
    readToken true c rest = (.token kind (c :: rest) [],[]) := by
  rw [isToken_cons_iff,readLexeme] at h
  split at h
  · cases h
  split at h
  · cases h
  cases hcomment : readComment (c :: rest) with
  | none => rwa [hcomment] at h
  | some reading =>
    rw [hcomment] at h
    cases h
    exact absurd hcomment (readComment_ne_token _ _ _ _ _)

/-- A reader that looks for an end takes the whole text exactly if the end is the last that it takes. -/
lemma ofCut_eq_iff {kind : TokenKind} {fault : LexicalFault} {opening : Char} {cut : Cut} {text : List Char} :
    Lexeme.ofCut kind fault opening cut = (.token kind (opening :: text) [],[]) ↔ cut = ⟨text,[],true⟩ := by
  obtain ⟨taken,rest,closed⟩ := cut
  simp only [Lexeme.ofCut,Prod.mk.injEq,Lexeme.token.injEq,List.cons.injEq,true_and,Cut.mk.injEq]
  cases closed with
  | true => simp
  | false => simp

end QmlCodeModel
