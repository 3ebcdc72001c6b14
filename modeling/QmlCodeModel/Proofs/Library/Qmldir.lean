import Mathlib.Tactic.Common
import QmlCodeModel.Library.Qmldir
import QmlCodeModel.Proofs.Path

/-! Files that list a library, and what is read from them. Records may be written with any blanks around their
words, with comments behind them, and with blank lines and lines that are no records between them. All records are
found again in their order, and each line that is none is reported under its number. -/
namespace QmlCodeModel

/-! Words between blanks. -/

/-- A word has no blank and no hash sign, with which a comment starts. -/
structure IsWord (word : List Char) : Prop where
  ne_nil : word ≠ []
  plain : ∀ c ∈ word, CharClass.blank.contains c = false ∧ c ≠ '#'

instance (word : List Char) : Decidable (IsWord word) :=
  have := List.decidableBAll (fun c => CharClass.blank.contains c = false ∧ c ≠ '#') word
  decidable_of_iff (word ≠ [] ∧ ∀ c ∈ word, CharClass.blank.contains c = false ∧ c ≠ '#')
    ⟨fun h => ⟨h.1,h.2⟩,fun h => ⟨h.1,h.2⟩⟩

/-- Blanks on one line. -/
def IsGap (gap : List Char) : Prop := ∀ c ∈ gap, CharClass.blank.contains c ∧ c ≠ '\n'

instance (gap : List Char) : Decidable (IsGap gap) :=
  List.decidableBAll (fun c => CharClass.blank.contains c ∧ c ≠ '\n') gap

/-- These words on one line, with blanks before, between and after them. -/
inductive SpacedWords : List (List Char) → List Char → Prop
  | gap {gap : List Char} (h : IsGap gap) : SpacedWords [] gap
  | word {gap word text : List Char} {words : List (List Char)} (hgap : IsGap gap) (hword : IsWord word)
      (later : SpacedWords words text) (apart : ∀ c ∈ text.head?, CharClass.blank.contains c) :
      SpacedWords (word :: words) (gap ++ (word ++ text))

section

variable {c : Char} {gap word text : List Char} {ws : List (List Char)}

namespace SpacedWords

lemma forall_mem {p : Char → Prop} (h : SpacedWords ws text) (hgap : ∀ c, CharClass.blank.contains c ∧ c ≠ '\n' → p c)
    (hword : ∀ c, CharClass.blank.contains c = false ∧ c ≠ '#' → p c) : ∀ c ∈ text, p c := by
  induction h with
  | gap h => exact fun c hc => hgap c (h c hc)
  | word hbefore hplain _ _ ih =>
    refine List.forall_mem_append.mpr ⟨fun c hc => hgap c (hbefore c hc),List.forall_mem_append.mpr ⟨?_,ih⟩⟩
    exact fun c hc => hword c (hplain.plain c hc)

lemma newline_notMem (h : SpacedWords ws text) : '\n' ∉ text := by
  intro hmem
  refine h.forall_mem (p := (· ≠ '\n')) (fun _ => And.right) ?_ _ hmem rfl
  rintro c ⟨hc,-⟩ rfl
  exact absurd hc (by decide)

lemma append_gap (h : SpacedWords ws text) (hgap : IsGap gap) : SpacedWords ws (text ++ gap) := by
  induction h with
  | gap h => exact .gap (List.forall_mem_append.mpr ⟨h,hgap⟩)
  | @word before word text words hbefore hword later apart ih =>
    rw [List.append_assoc,List.append_assoc]
    refine .word hbefore hword ih ?_
    cases text with
    | nil => exact fun c hc => (hgap c (List.mem_of_mem_head? hc)).1
    | cons d rest => exact apart

lemma gap_append (h : SpacedWords ws text) (hgap : IsGap gap) : SpacedWords ws (gap ++ text) := by
  cases h with
  | gap h => exact .gap (List.forall_mem_append.mpr ⟨hgap,h⟩)
  | word hbefore hword later apart =>
    rw [← List.append_assoc]
    exact .word (List.forall_mem_append.mpr ⟨hgap,hbefore⟩) hword later apart

/-- Words can be written with one blank between them. -/
lemma intercalate {ws : List (List Char)} (h : ∀ w ∈ ws, IsWord w) : SpacedWords ws ([' '].intercalate ws) := by
  induction ws with
  | nil => exact .gap (by decide)
  | cons word ws ih =>
    obtain ⟨hword,hws⟩ := List.forall_mem_cons.mp h
    have hnone : IsGap [] := by decide
    cases ws with
    | nil => simpa using SpacedWords.word hnone hword (.gap hnone) (by simp)
    | cons next ws =>
      rw [List.intercalate_cons_cons,List.append_assoc]
      refine .word hnone hword ((ih hws).gap_append (by decide)) ?_
      rintro c ⟨⟩
      decide

end SpacedWords

/-- These words on one line, which may end with a comment. -/
inductive WordLine (ws : List (List Char)) : List Char → Prop
  | plain {text : List Char} (h : SpacedWords ws text) : WordLine ws text
  | comment {text comment : List Char} (h : SpacedWords ws text) (hcomment : '\n' ∉ comment) :
      WordLine ws (text ++ '#' :: comment)

namespace WordLine

lemma newline_notMem (h : WordLine ws text) : '\n' ∉ text := by
  cases h with
  | plain h => exact h.newline_notMem
  | comment h hcomment =>
    simp only [List.mem_append,List.mem_cons,not_or]
    exact ⟨h.newline_notMem,by decide,hcomment⟩

/-- The first half of a line end of two characters is one more blank, or belongs to the comment. -/
lemma append_return (h : WordLine ws text) : WordLine ws (text ++ ['\r']) := by
  cases h with
  | plain h => exact .plain (h.append_gap (by decide))
  | comment h hcomment =>
    rw [List.append_assoc,List.cons_append]
    exact .comment h (by simpa using hcomment)

end WordLine

end

/-! Versions. -/

/-- A version of two numbers of 32 bits. -/
def ComponentVersion.Full (v : ComponentVersion) : Prop :=
  ∃ major minor, v = ⟨some major, some minor⟩ ∧ major < 0x100000000 ∧ minor < 0x100000000

namespace QmldirRecord

/-- The words that a record is written with. -/
def words : QmldirRecord → List String
  | .module uri => ["module", uri]
  | .plugin p => ["plugin", p.name] ++ p.path.toList
  | .className name => ["classname", name]
  | .typeInfo file => ["typeinfo", file]
  | .designerSupported => ["designersupported"]
  | .depends uri version => ["depends", uri, version.render]
  | .component c =>
    (if c.internal then ["internal"] else if c.singleton then ["singleton"] else []) ++
      [c.typeName] ++ (if c.version.isValid then [c.version.render] else []) ++ [c.fileName]

/-- A record that can be written. A version stands as a whole or not at all, and is not written for what is
internal. -/
def Proper : QmldirRecord → Prop
  | .depends _ version => version.Full
  | .component c => startsUppercase c.typeName ∧ (c.version = {} ∨ c.version.Full ∧ c.internal = false) ∧
      ¬(c.singleton ∧ c.internal)
  | _ => True

@[simp] def module? : QmldirRecord → Option String
  | .module uri => some uri
  | _ => none

@[simp] def className? : QmldirRecord → Option String
  | .className name => some name
  | _ => none

end QmldirRecord

/-! Lines and files. -/

/-- A line of a file: a record, nothing, or words that are no record. -/
inductive QmldirEntry
  | record (record : QmldirRecord)
  | blank
  | stray (word : String) (others : List String)

namespace QmldirEntry

def words : QmldirEntry → List String
  | .record r => r.words
  | .blank => []
  | .stray word others => word :: others

def Proper : QmldirEntry → Prop
  | .record r => r.Proper
  | .blank => True
  | .stray word others => word ≠ "singleton" ∧ 3 ≤ others.length

def record? : QmldirEntry → Option QmldirRecord
  | .record r => some r
  | _ => none

/-- What is wrong with an entry. -/
def fault? : QmldirEntry → Option QmldirFault
  | .stray word _ => some (.unknownDirective word)
  | _ => none

/-- A line with the words of an entry. -/
def OnLine (e : QmldirEntry) (line : List Char) : Prop := WordLine (e.words.map String.toList) line

end QmldirEntry

namespace Qmldir

/-- A file with these entries on its lines, which end with a line feed or with a carriage return and a line feed.
Nothing ends the last one. -/
inductive Written : List QmldirEntry → List Char → Prop
  | last {e : QmldirEntry} {line : List Char} (h : e.OnLine line) : Written [e] line
  | next {e : QmldirEntry} {entries : List QmldirEntry} {line ending text : List Char} (h : e.OnLine line)
      (hending : ending = ['\n'] ∨ ending = ['\r','\n']) (later : Written entries text) :
      Written (e :: entries) (line ++ (ending ++ text))

/-- The lines of a file are those of its entries. -/
lemma Written.lines {entries : List QmldirEntry} {text : List Char} (h : Written entries text) :
    List.Forall₂ QmldirEntry.OnLine entries (splitOnChar '\n' text) := by
  induction h with
  | last h =>
    rw [splitOnChar_of_notMem (WordLine.newline_notMem h)]
    exact .cons h .nil
  | @next e entries line ending text h hending later ih =>
    obtain rfl | rfl := hending
    · rw [List.singleton_append,splitOnChar_append (WordLine.newline_notMem h)]
      exact .cons h ih
    · have hreturn : e.OnLine (line ++ ['\r']) := WordLine.append_return h
      have hsplit : line ++ (['\r','\n'] ++ text) = (line ++ ['\r']) ++ '\n' :: text := by simp
      rw [hsplit,splitOnChar_append (WordLine.newline_notMem hreturn)]
      exact .cons hreturn ih

/-- The records among entries, in order. -/
def records (entries : List QmldirEntry) : List QmldirRecord := entries.filterMap QmldirEntry.record?

/-- The faults of entries, the first of which stands on the given line. -/
def faultsFrom (line : Nat) (entries : List QmldirEntry) : List (Nat × QmldirFault) :=
  (entries.zipIdx line).filterMap fun (e, line) => e.fault?.map fun fault => (line,fault)

section

variable (entries : List QmldirEntry) (n : Nat)

@[simp] lemma records_blank : records (.blank :: entries) = records entries := rfl
@[simp] lemma records_stray (word : String) (others : List String) :
    records (.stray word others :: entries) = records entries := rfl

@[simp] lemma faultsFrom_blank : faultsFrom n (.blank :: entries) = faultsFrom (n + 1) entries := rfl
end

end Qmldir

end QmlCodeModel
