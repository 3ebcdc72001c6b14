import QmlCodeModel.FiniteMap

/-! Trees of files and directories. Everything stands in a directory, up to the root. -/
namespace QmlCodeModel

/-- Where something stands: its own name first, then those of the directories around it, the
innermost first. The root has no name. -/
abbrev Location := List String

/-- Equality of bytes, as a test that runs. -/
instance (priority := 2000) decidableEqBytes : DecidableEq ByteArray := ByteArray.instDecidableEq

inductive FileEntry
  /-- A file, with the time in seconds at which it was last written. -/
  | file (bytes : ByteArray) (modified : Int)
  | directory
  deriving DecidableEq

namespace FileEntry

def isFile : FileEntry → Bool
  | .file _ _ => true
  | .directory => false

end FileEntry

/-- What stands at a location. The root is always there. -/
def entryAt? (m : FiniteMap Location FileEntry) : Location → Option FileEntry
  | [] => some .directory
  | l => m.get? l

structure FileTree where
  /-- What stands below the root. -/
  entries : FiniteMap Location FileEntry
  /-- What stands anywhere stands in a directory. -/
  inDirectory : ∀ name around, entryAt? entries (name :: around) ≠ none →
    entryAt? entries around = some .directory

namespace FileTree

/-- The root alone. -/
def empty : FileTree where
  entries := {}
  inDirectory := by simp [entryAt?, FiniteMap.get?]

instance : Inhabited FileTree := ⟨empty⟩

def entry? (t : FileTree) (l : Location) : Option FileEntry := entryAt? t.entries l

def isDirectory (t : FileTree) (l : Location) : Bool := t.entry? l = some .directory

theorem entryAt?_insert (m : FiniteMap Location FileEntry) (name : String) (around l : Location)
    (e : FileEntry) : entryAt? (m.insert (name :: around) e) l =
      if l = name :: around then some e else entryAt? m l := by
  cases l with
  | nil => simp [entryAt?]
  | cons n rest => simp only [entryAt?, FiniteMap.get?_insert]

theorem entryAt?_filterKeys (m : FiniteMap Location FileEntry) (p : Location → Bool)
    (l : Location) : entryAt? (m.filterKeys p) l =
      if l = [] ∨ p l then entryAt? m l else none := by
  cases l with
  | nil => simp [entryAt?]
  | cons n rest => simp [entryAt?, FiniteMap.get?_filterKeys]

/-- Puts something under a name into a directory. Nothing is put in the place of a directory, nor
where there is no directory. -/
def put? (t : FileTree) (name : String) (around : Location) (e : FileEntry) : Option FileTree :=
  if h : t.entry? around = some .directory ∧ t.entry? (name :: around) ≠ some .directory then
    some
      { entries := t.entries.insert (name :: around) e
        inDirectory := by
          intro n rest hn
          rw [entryAt?_insert] at hn ⊢
          have hrest : entryAt? t.entries rest = some .directory := by
            split at hn
            · rename_i heq
              obtain ⟨rfl, rfl⟩ := List.cons.inj heq
              exact h.1
            · exact t.inDirectory n rest hn
          have : rest ≠ name :: around := by
            rintro rfl
            exact h.2 hrest
          simpa [this] using hrest }
  else none

/-- Makes a directory, unless it is there. -/
def makeDirectory? (t : FileTree) (name : String) (around : Location) : Option FileTree :=
  match t.entry? (name :: around) with
  | none => t.put? name around .directory
  | some .directory => some t
  | some (.file _ _) => none

/-- Takes out what stands at a location, with all that stands below it. The root stays. -/
def remove (t : FileTree) (l : Location) : FileTree where
  entries := t.entries.filterKeys fun k => !decide (l <:+ k)
  inDirectory := by
    intro name around h
    rw [entryAt?_filterKeys] at h ⊢
    split at h
    · rename_i hk
      have hk : ¬ l <:+ name :: around := by simpa using hk
      have : ¬ l <:+ around := fun hl => hk (hl.trans (List.suffix_cons name around))
      simpa [this] using t.inDirectory name around h
    · simp at h

/-- The files at and below a location, each with the way there: the names of directories from the
outermost on, and its own name. -/
def filesBelow (t : FileTree) (l : Location) : List (List String) :=
  t.entries.entries.filterMap fun (k, e) =>
    if e.isFile then (l.isSuffixOf? k).map List.reverse else none

/-- The locations at which two trees are not the same. -/
def changes (before after : FileTree) : List Location :=
  (before.entries.keys ++ after.entries.keys).eraseDups.filter fun l =>
    before.entry? l ≠ after.entry? l

end FileTree
end QmlCodeModel
