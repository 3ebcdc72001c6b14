import Mathlib.Tactic.Common
import QmlCodeModel.Token.Stream

/-! The tokens of a text stand one behind another, each with a text of its own, and after them the end of
the text. -/
namespace QmlCodeModel

/-- Tokens one behind another between two offsets, none of them empty. -/
def Spread (stop : Nat) : Nat → List Token → Prop
  | start, [] => start ≤ stop
  | start, t :: rest => start ≤ t.span.start ∧ t.span.start < t.span.stop ∧ Spread stop t.span.stop rest

lemma Spread.le {start stop : Nat} {tokens : List Token} (h : Spread stop start tokens) :
    start ≤ stop := by
  induction tokens generalizing start with
  | nil => exact h
  | cons t rest ih =>
    obtain ⟨hstart,hlt,hrest⟩ := h
    have := ih hrest
    omega

lemma Spread.weaken {start stop stop' : Nat} {tokens : List Token} (h : Spread stop start tokens)
    (hle : stop ≤ stop') : Spread stop' start tokens := by
  induction tokens generalizing start with
  | nil => exact Nat.le_trans h hle
  | cons t rest ih => exact ⟨h.1,h.2.1,ih h.2.2⟩

lemma Spread.snoc {start stop : Nat} {tokens : List Token} {t : Token}
    (h : Spread t.span.start start tokens) (hlt : t.span.start < t.span.stop)
    (hstop : t.span.stop ≤ stop) : Spread stop start (tokens ++ [t]) := by
  induction tokens generalizing start with
  | nil => exact ⟨h,hlt,hstop⟩
  | cons u rest ih => exact ⟨h.1,h.2.1,ih h.2.2⟩

lemma byteWidth_pos {text : List Char} (h : text ≠ []) : 0 < byteWidth text := by
  cases text with
  | nil => exact absurd rfl h
  | cons c rest =>
    have := c.utf8Size_pos
    simp only [byteWidth_cons]
    omega

lemma text_ne_nil_of_mem_lexemesFrom {allowed : Bool} {text : List Char} {l : Lexeme}
    (h : l ∈ lexemesFrom allowed text) : l.text ≠ [] := by
  fun_induction lexemesFrom allowed text with
  | case1 => simp at h
  | case2 allowed c rest ih =>
    obtain rfl | h := List.mem_cons.mp h
    · exact (isReading_readLexeme allowed c rest).2
    · exact ih h

namespace TokenStream

/-- What has been read is put in order up to the position, and has texts. -/
structure Ordered (s : TokenStream) : Prop where
  spread : Spread s.position 0 s.tokens.toList
  texts : ∀ t ∈ s.tokens.toList, t.text ≠ ""

/-- A lexeme moves the position on by its width, and adds a token at the most. -/
lemma Ordered.add {s : TokenStream} (h : s.Ordered) {l : Lexeme} (hl : l.text ≠ []) :
    (s.add l).Ordered ∧ (s.add l).position = s.position + byteWidth l.text := by
  cases l with
  | blank c => exact ⟨⟨h.spread.weaken (Nat.le_add_right _ _),h.texts⟩,by simp [TokenStream.add,Lexeme.text]⟩
  | lineBreak c =>
    exact ⟨⟨h.spread.weaken (Nat.le_add_right _ _),h.texts⟩,by simp [TokenStream.add,Lexeme.text]⟩
  | stray c => exact ⟨⟨h.spread.weaken (Nat.le_add_right _ _),h.texts⟩,by simp [TokenStream.add,Lexeme.text]⟩
  | comment text closed => exact ⟨⟨h.spread.weaken (Nat.le_add_right _ _),h.texts⟩,rfl⟩
  | token kind text faults =>
    refine ⟨⟨?_,?_⟩,rfl⟩
    · have hpos := byteWidth_pos hl
      change Spread (s.position + byteWidth text) 0 (s.tokens.push _).toList
      rw [Array.toList_push]
      exact Spread.snoc h.spread (Nat.lt_add_of_pos_right hpos) (Nat.le_refl _)
    · intro t ht
      change t ∈ (s.tokens.push _).toList at ht
      rw [Array.toList_push] at ht
      obtain ht | ht := List.mem_append.mp ht
      · exact h.texts t ht
      · rw [List.mem_singleton.mp ht]
        exact fun hnone => hl (String.ofList_injective hnone)

lemma ordered_foldl {s : TokenStream} (h : s.Ordered) {ls : List Lexeme}
    (hls : ∀ l ∈ ls, l.text ≠ []) : (ls.foldl TokenStream.add s).Ordered ∧
      (ls.foldl TokenStream.add s).position = s.position + byteWidth (ls.flatMap Lexeme.text) := by
  induction ls generalizing s with
  | nil => exact ⟨h,by simp⟩
  | cons l ls ih =>
    obtain ⟨hordered,hposition⟩ := h.add (hls l List.mem_cons_self)
    obtain ⟨hlater,hend⟩ := ih hordered fun l hl => hls l (List.mem_cons_of_mem _ hl)
    refine ⟨hlater,?_⟩
    rw [List.foldl_cons,hend,hposition,List.flatMap_cons,byteWidth_append]
    omega

end TokenStream

/-- The last token is the end of the text, and the others are in order before it. -/
theorem tokens_tokenize (text : List Char) : ∃ tokens eof, (tokenize text).tokens.toList = tokens ++ [eof] ∧
    eof.kind = .eof ∧ eof.span.start = byteWidth text ∧ Spread eof.span.start 0 tokens ∧
    ∀ t ∈ tokens, t.text ≠ "" := by
  have hblank : ({} : TokenStream).Ordered := ⟨Nat.le_refl 0,by simp⟩
  have hne : ∀ l ∈ lexemes text, l.text ≠ [] := fun l hl => text_ne_nil_of_mem_lexemesFrom hl
  obtain ⟨hordered,hposition⟩ := TokenStream.ordered_foldl hblank hne
  rw [flatMap_text_lexemes] at hposition
  refine ⟨_,_,Array.toList_push,rfl,?_,hordered.spread,hordered.texts⟩
  simpa using hposition

/-! The kinds of tokens. -/

/-- A lexeme that is not the end of the text. -/
def Lexeme.Within (l : Lexeme) : Prop := ∀ kind text faults, l = .token kind text faults → kind ≠ .eof

lemma within_readToken (allowed : Bool) (c : Char) (rest : List Char) :
    (readToken allowed c rest).1.Within := by
  intro kind text faults h
  unfold readToken Lexeme.ofCut at h
  repeat' split at h
  all_goals cases h
  all_goals nofun

lemma within_readLexeme (allowed : Bool) (c : Char) (rest : List Char) :
    (readLexeme allowed c rest).1.Within := by
  unfold readLexeme
  split
  · nofun
  split
  · nofun
  cases h : readComment (c :: rest) with
  | none => exact within_readToken allowed c rest
  | some reading =>
    unfold readComment at h
    split at h <;> cases h <;> nofun

lemma within_of_mem_lexemesFrom {allowed : Bool} {text : List Char} {l : Lexeme}
    (h : l ∈ lexemesFrom allowed text) : l.Within := by
  fun_induction lexemesFrom allowed text with
  | case1 => simp at h
  | case2 allowed c rest ih =>
    obtain rfl | h := List.mem_cons.mp h
    · exact within_readLexeme allowed c rest
    · exact ih h

lemma TokenStream.kinds_add {s : TokenStream} (h : ∀ t ∈ s.tokens.toList, t.kind ≠ .eof) {l : Lexeme}
    (hl : l.Within) : ∀ t ∈ (s.add l).tokens.toList, t.kind ≠ .eof := by
  cases l with
  | token kind text faults =>
    intro t ht
    change t ∈ (s.tokens.push _).toList at ht
    rw [Array.toList_push] at ht
    obtain ht | ht := List.mem_append.mp ht
    · exact h t ht
    · rw [List.mem_singleton.mp ht]
      exact hl _ _ _ rfl
  | _ => exact h

/-- Only the last token is the end of the text. -/
theorem kinds_tokenize (text : List Char) :
    ∀ t ∈ (tokenize text).tokens.toList.dropLast, t.kind ≠ .eof := by
  have hfold : ∀ (ls : List Lexeme) (s : TokenStream), (∀ l ∈ ls, l.Within) →
      (∀ t ∈ s.tokens.toList, t.kind ≠ .eof) →
      ∀ t ∈ (ls.foldl TokenStream.add s).tokens.toList, t.kind ≠ .eof := by
    intro ls
    induction ls with
    | nil => exact fun _ _ h => h
    | cons l ls ih =>
      exact fun s hls h => ih _ (fun l hl => hls l (List.mem_cons_of_mem _ hl))
        (TokenStream.kinds_add h (hls l List.mem_cons_self))
  change ∀ t ∈ (Array.push ((lexemes text).foldl TokenStream.add {}).tokens _).toList.dropLast, _
  rw [Array.toList_push,List.dropLast_concat]
  exact hfold _ _ (fun l hl => within_of_mem_lexemesFrom hl) (by simp)

end QmlCodeModel
