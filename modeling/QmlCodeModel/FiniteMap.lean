/-! Finite maps, as lists of entries in the order in which their keys were first entered. -/
namespace QmlCodeModel

structure FiniteMap (κ α : Type) where
  entries : List (κ × α) := []
  distinct : (entries.map Prod.fst).Nodup := by simp
  deriving DecidableEq, Repr

namespace FiniteMap

variable {κ α : Type} [DecidableEq κ]

instance : Inhabited (FiniteMap κ α) := ⟨{}⟩

def keys (m : FiniteMap κ α) : List κ := m.entries.map Prod.fst

def values (m : FiniteMap κ α) : List α := m.entries.map Prod.snd

def size (m : FiniteMap κ α) : Nat := m.entries.length

def isEmpty (m : FiniteMap κ α) : Bool := m.entries.isEmpty

def get? (m : FiniteMap κ α) (key : κ) : Option α := m.entries.lookup key

def contains (m : FiniteMap κ α) (key : κ) : Bool := (m.get? key).isSome

theorem map_fst_replace (key : κ) (value : α) (entries : List (κ × α)) :
    (entries.map fun e => if e.1 = key then (key, value) else e).map Prod.fst =
      entries.map Prod.fst := by
  induction entries with
  | nil => rfl
  | cons e rest ih =>
    simp only [List.map_cons, ih]
    split
    · simp [*]
    · rfl

omit [DecidableEq κ] in
theorem map_fst_filter_sublist (p : κ × α → Bool) (entries : List (κ × α)) :
    ((entries.filter p).map Prod.fst).Sublist (entries.map Prod.fst) :=
  List.filter_sublist.map Prod.fst

/-- Gives a key a value, whatever it had before. A key that was there keeps its place. -/
def insert (m : FiniteMap κ α) (key : κ) (value : α) : FiniteMap κ α :=
  if h : key ∈ m.entries.map Prod.fst then
    ⟨m.entries.map fun e => if e.1 = key then (key, value) else e,
      (map_fst_replace key value m.entries).symm ▸ m.distinct⟩
  else
    ⟨m.entries ++ [(key, value)], by
      rw [List.map_append, List.nodup_append]
      refine ⟨m.distinct, by simp, ?_⟩
      intro a ha b hb hab
      simp only [List.map_cons, List.map_nil, List.mem_singleton] at hb
      subst hb hab
      exact h ha⟩

/-- Takes a key out. -/
def erase (m : FiniteMap κ α) (key : κ) : FiniteMap κ α :=
  ⟨m.entries.filter (·.1 ≠ key), (map_fst_filter_sublist _ _).nodup m.distinct⟩

theorem lookup_map_replace_self (key : κ) (value : α) (entries : List (κ × α))
    (h : key ∈ entries.map Prod.fst) :
    (entries.map fun e => if e.1 = key then (key, value) else e).lookup key = some value := by
  induction entries with
  | nil => cases h
  | cons e rest ih =>
    obtain ⟨k, v⟩ := e
    by_cases hk : k = key
    · simp [hk]
    · have hr : key ∈ rest.map Prod.fst := (List.mem_cons.mp h).resolve_left fun heq => hk heq.symm
      have hne : (key == k) = false := by simpa using fun heq => hk heq.symm
      simp only [List.map_cons, hk, if_false, List.lookup_cons, hne, ih hr]

theorem lookup_map_replace_of_ne {key k : κ} (hk : k ≠ key) (value : α) (entries : List (κ × α)) :
    (entries.map fun e => if e.1 = key then (key, value) else e).lookup k = entries.lookup k := by
  induction entries with
  | nil => rfl
  | cons e rest ih =>
    obtain ⟨k', v⟩ := e
    by_cases hk' : k' = key
    · have hne : (k == key) = false := by simpa using hk
      simp only [List.map_cons, hk', if_true, List.lookup_cons, hne, ih]
    · simp only [List.map_cons, hk', if_false, List.lookup_cons, ih]

theorem lookup_append_singleton (key k : κ) (value : α) (entries : List (κ × α))
    (h : key ∉ entries.map Prod.fst) :
    (entries ++ [(key, value)]).lookup k =
      if k = key then some value else entries.lookup k := by
  induction entries with
  | nil =>
    by_cases hk : k = key
    · simp [hk]
    · have : (k == key) = false := by simpa using hk
      simp [List.lookup_cons, this, hk]
  | cons e rest ih =>
    obtain ⟨k', v⟩ := e
    simp only [List.map_cons, List.mem_cons, not_or] at h
    simp only [List.cons_append, List.lookup_cons, ih h.2]
    by_cases hk' : k = k'
    · subst hk'
      have : k ≠ key := fun hn => h.1 hn.symm
      simp [this]
    · have : (k == k') = false := by simpa using hk'
      simp [this]

theorem get?_insert (m : FiniteMap κ α) (key k : κ) (value : α) :
    (m.insert key value).get? k = if k = key then some value else m.get? k := by
  unfold insert get?
  split
  · by_cases hk : k = key
    · rw [if_pos hk, hk]
      exact lookup_map_replace_self key value m.entries ‹_›
    · rw [if_neg hk]
      exact lookup_map_replace_of_ne hk value m.entries
  · exact lookup_append_singleton key k value m.entries ‹_›

theorem get?_erase (m : FiniteMap κ α) (key k : κ) :
    (m.erase key).get? k = if k = key then none else m.get? k := by
  unfold erase get?
  simp only
  induction m.entries with
  | nil => simp
  | cons e rest ih =>
    obtain ⟨k', v⟩ := e
    by_cases hk' : k' = key
    · subst hk'
      simp only [List.filter_cons, ne_eq, not_true_eq_false, decide_false, Bool.false_eq_true,
        if_false, ih, List.lookup_cons]
      by_cases hk : k = k'
      · simp [hk]
      · have : (k == k') = false := by simpa using hk
        simp [hk, this]
    · simp only [List.filter_cons, ne_eq, hk', not_false_eq_true, decide_true, if_true,
        List.lookup_cons, ih]
      by_cases hk : k = k'
      · subst hk
        simp [hk']
      · have : (k == k') = false := by simpa using hk
        simp [this]

/-- Keeps the keys that have a property. -/
def filterKeys (m : FiniteMap κ α) (p : κ → Bool) : FiniteMap κ α :=
  ⟨m.entries.filter fun e => p e.1, (map_fst_filter_sublist _ _).nodup m.distinct⟩

theorem get?_filterKeys (m : FiniteMap κ α) (p : κ → Bool) (k : κ) :
    (m.filterKeys p).get? k = if p k then m.get? k else none := by
  unfold filterKeys get?
  simp only
  induction m.entries with
  | nil => simp
  | cons e rest ih =>
    obtain ⟨k', v⟩ := e
    by_cases hp : p k'
    · simp only [List.filter_cons, hp, if_true, List.lookup_cons, ih]
      by_cases hk : k = k'
      · subst hk
        simp [hp]
      · have : (k == k') = false := by simpa using hk
        simp [this]
    · simp only [List.filter_cons, hp, Bool.false_eq_true, if_false, ih, List.lookup_cons]
      by_cases hk : k = k'
      · subst hk
        simp [hp]
      · have : (k == k') = false := by simpa using hk
        simp [this]

/-- Changes the value of a key that is there. -/
def modify (m : FiniteMap κ α) (key : κ) (f : α → α) : FiniteMap κ α :=
  match m.get? key with
  | some value => m.insert key (f value)
  | none => m

theorem get?_modify (m : FiniteMap κ α) (key k : κ) (f : α → α) :
    (m.modify key f).get? k = if k = key then (m.get? k).map f else m.get? k := by
  unfold modify
  split
  · rw [get?_insert]
    split
    · simp [*]
    · rfl
  · split
    · simp [*]
    · rfl

end FiniteMap
end QmlCodeModel
