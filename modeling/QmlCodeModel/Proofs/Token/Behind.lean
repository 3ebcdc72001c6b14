import QmlCodeModel.Proofs.Token.Normal
import QmlCodeModel.Proofs.Tree.Bare

/-! A text behind a word with a name in parentheses, as a condition or a loop starts: it is cut into the
tokens that it is cut into by itself, unless it starts with a regular expression. -/
namespace QmlCodeModel

/-- The first token, which is the end of the text if there is no other. -/
def TokenStream.first (s : TokenStream) : Token := s.tokens.toList.headD default

/-- What stands between a word and what is behind it. -/
def testChars : List Char := [' ','(','x',')',' ']

/-- The tokens of a word with a name in parentheses, without their places. -/
def testTokens (word : String) : List Token :=
  [⟨.name,{},word,false⟩,⟨.punct,{},"(",false⟩,⟨.name,{},"x",false⟩,⟨.punct,{},")",false⟩]

/-! Lexemes. -/

/-- What is no regular expression is read alike where none can start. -/
lemma readLexeme_false (c : Char) (rest : List Char) : readLexeme false c rest = readLexeme true c rest ∨
    ∃ text faults, (readLexeme true c rest).1 = .token .regExp text faults := by
  unfold readLexeme
  split
  · exact .inl rfl
  split
  · exact .inl rfl
  cases readComment (c :: rest) with
  | some reading => exact .inl rfl
  | none =>
    by_cases hc : c = '/'
    · subst hc
      have hname : isNameStart '/' = false := by decide +kernel
      have hnumber : startsNumber '/' rest = false := rfl
      exact .inr (by simp [readToken,hname,hnumber,Lexeme.ofCut])
    · exact .inl (by simp [readToken,hc])

/-- By induction on the lexemes up to the first token, which decides on all that is behind it. -/
lemma lexemesFrom_false (text : List Char) (newline : Bool)
    (h : ∀ m ∈ (mentions newline (lexemesFrom true text)).head?, m.kind ≠ .regExp) :
    lexemesFrom false text = lexemesFrom true text := by
  generalize hallowed : true = allowed at h ⊢
  fun_induction lexemesFrom allowed text generalizing newline with
  | case1 => rw [lexemesFrom]
  | case2 allowed c rest ih =>
    subst hallowed
    rw [lexemesFrom]
    obtain hsame | ⟨text,faults,hregExp⟩ := readLexeme_false c rest
    · rw [hsame]
      cases hl : (readLexeme true c rest).1 with
      | token kind text faults => rfl
      | _ =>
        rw [hl] at ih h
        exact congrArg _ (ih _ rfl h)
    · rw [hregExp] at h
      exact absurd rfl (h _ rfl)

lemma readLexeme_round {c : Char} (hc : c ∈ ['(',')']) (allowed : Bool) (tail : List Char) :
    readLexeme allowed c tail = (.token .punct [c] [],tail) := by
  simp only [List.mem_cons,List.not_mem_nil,or_false] at hc
  have hsolid : Solid c := by obtain rfl | rfl := hc <;> exact ⟨by decide,by decide,by decide,by decide⟩
  have hname : isNameStart c = false := by obtain rfl | rfl := hc <;> decide +kernel
  have hpunct : punctuatorAt (c :: tail) = some (String.ofList [c]) := by
    obtain rfl | rfl := hc <;> simp [punctuatorAt,punctuators,punctuatorStands]
  have hother : startsNumber c tail = false ∧ c ≠ '"' ∧ c ≠ '\'' ∧ c ≠ '\x60' := by
    obtain rfl | rfl := hc <;> exact ⟨rfl,by decide⟩
  rw [hsolid.readLexeme]
  simp [readToken,hname,hother,hsolid.slash,hpunct]

lemma lexemesFrom_word (word : Word) (allowed : Bool) {d : Char} (hd : isNamePart d = false) (tail : List Char) :
    ∃ later, lexemesFrom allowed (word.text.toList ++ d :: tail) =
      .token .name word.text.toList [] :: lexemesFrom later (d :: tail) := by
  refine lexemesFrom_glyph allowed (.word word) fun c hc => ?_
  obtain rfl : d = c := by simpa using hc
  exact hd

/-- Behind a parenthesis no regular expression can start. -/
lemma lexemesFrom_test (word : Word) (allowed : Bool) (text : List Char) :
    lexemesFrom allowed (word.text.toList ++ (testChars ++ text)) =
      [.token .name word.text.toList [],.blank ' ',.token .punct ['('] [],.token .name ['x'] [],
        .token .punct [')'] [],.blank ' '] ++ lexemesFrom false text := by
  have hblank (allowed : Bool) (tail : List Char) :
      lexemesFrom allowed (' ' :: tail) = .blank ' ' :: lexemesFrom allowed tail := lexemesFrom_gap .blank
  have hround {c : Char} (hc : c ∈ ['(',')']) (allowed : Bool) (tail : List Char) :
      lexemesFrom allowed (c :: tail) =
        .token .punct [c] [] :: lexemesFrom (regExpMayFollow .punct [c]) tail := by
    rw [lexemesFrom,readLexeme_round hc]
    rfl
  obtain ⟨after,hword⟩ := lexemesFrom_word word allowed (show isNamePart ' ' = false by decide +kernel)
    (['(','x',')',' '] ++ text)
  obtain ⟨later,hname⟩ := lexemesFrom_word { text := "x" } (regExpMayFollow .punct ['('])
    (show isNamePart ')' = false by decide +kernel) (' ' :: text)
  change lexemesFrom allowed (word.text.toList ++ ' ' :: (['(','x',')',' '] ++ text)) = _
  rw [hword,hblank]
  change _ :: _ :: lexemesFrom after ('(' :: 'x' :: ')' :: ' ' :: text) = _
  rw [hround (by decide)]
  change _ :: _ :: _ :: lexemesFrom _ ("x".toList ++ ')' :: ' ' :: text) = _
  rw [hname,hround (by decide),hblank]
  rfl

/-! Tokens. -/

namespace TokenStream

lemma faults_foldl {ls : List Lexeme} (s : TokenStream) (h : ∀ l ∈ ls, l.Faultless) :
    (ls.foldl add s).faults = s.faults := by
  induction ls generalizing s with
  | nil => rfl
  | cons l ls ih =>
    obtain ⟨hl,hlater⟩ := List.forall_mem_cons.mp h
    rw [List.foldl_cons,ih _ hlater]
    cases l with
    | blank c => rfl
    | lineBreak c => rfl
    | stray c => exact hl.elim
    | comment text closed =>
      obtain rfl : closed = true := hl
      rfl
    | token kind text faults =>
      obtain rfl : faults = [] := hl
      simp [add,addToken]

end TokenStream

/-- A token without its place is one that is mentioned. -/
lemma bare_eq_of_mention {ts us : List Token} (h : ts.map Token.mention = us.map Token.mention) :
    ts.map Token.bare = us.map Token.bare := by
  have hbare (ts : List Token) : ts.map Token.bare =
      (ts.map Token.mention).map fun m => ⟨m.kind,{},String.ofList m.text,m.newline⟩ := by
    simp [Function.comp_def,Token.mention,Token.bare]
  rw [hbare,hbare,h]

/-- The tokens of a text, the end among them, in one reading of its lexemes. -/
lemma mention_tokenize (text : List Char) : (tokenize text).tokens.toList.map Token.mention =
    mentions false (lexemes text ++ [.token .eof [] []]) := by
  have h := TokenStream.mention_foldl {} (lexemes text ++ [.token .eof [] []])
  rw [List.foldl_append] at h
  exact h

/-- A text without faults that starts with no regular expression has the same tokens behind a word with a name
in parentheses. -/
theorem tokenize_behind_test (word : Word) {text : List Char} (hfaults : (tokenize text).faults = #[])
    (hfirst : (tokenize text).first.kind ≠ .regExp) :
    (tokenize (word.text.toList ++ (testChars ++ text))).faults = #[] ∧
      (tokenize (word.text.toList ++ (testChars ++ text))).tokens.toList.map Token.bare =
        testTokens word.text ++ (tokenize text).tokens.toList.map Token.bare := by
  have hsame : lexemesFrom false text = lexemes text := by
    refine lexemesFrom_false text false fun m hm => ?_
    obtain ⟨tokens,eof,htokens,-,-,-,hmentions⟩ := tokens_tokenize_mentions text
    unfold lexemes at hmentions
    rw [← hmentions] at hm
    cases tokens with
    | nil => cases hm
    | cons t tokens =>
      obtain rfl : t.mention = m := by simpa using hm
      simpa [TokenStream.first,htokens,Token.mention] using hfirst
  have hlexemes : lexemes (word.text.toList ++ (testChars ++ text)) = _ ++ lexemesFrom false text :=
    lexemesFrom_test word true text
  rw [hsame] at hlexemes
  refine ⟨?_,?_⟩
  · have hlater := faultless_lexemes hfaults
    unfold tokenize
    rw [hlexemes]
    simp only [TokenStream.finish,TokenStream.addToken,List.map_nil,Array.appendList_nil]
    refine TokenStream.faults_foldl {} fun l hl => ?_
    obtain hl | hl := List.mem_append.mp hl
    · simp only [List.mem_cons,List.not_mem_nil,or_false] at hl
      obtain rfl | rfl | rfl | rfl | rfl | rfl := hl <;> first | rfl | trivial
    · exact hlater l hl
  · have hmention : (tokenize (word.text.toList ++ (testChars ++ text))).tokens.toList.map Token.mention =
        (testTokens word.text ++ (tokenize text).tokens.toList).map Token.mention := by
      rw [mention_tokenize,hlexemes,List.map_append,mention_tokenize text,List.append_assoc]
      rfl
    rw [bare_eq_of_mention hmention,List.map_append]
    rfl

end QmlCodeModel
