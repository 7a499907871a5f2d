/-!
# Tables in order of first insertion

An association table keyed by text. A later insertion under a key that is present replaces the
value and keeps the key's place, so the order of the keys is that of their first insertions.
-/

namespace ExprLang

structure Table (α : Type) where
  entries : List (String × α) := []

namespace Table

variable {α : Type}

def get? (table : Table α) (key : String) : Option α :=
  table.entries.lookup key

/-- Replaces the value under a key in place, or adds the key at the end. -/
def insertEntry (key : String) (value : α) : List (String × α) → List (String × α)
  | [] => [(key, value)]
  | entry :: rest =>
    if entry.1 = key then (key, value) :: rest else entry :: insertEntry key value rest

def insert (table : Table α) (key : String) (value : α) : Table α :=
  ⟨insertEntry key value table.entries⟩

def keys (table : Table α) : List String :=
  table.entries.map (·.1)

def size (table : Table α) : Nat :=
  table.entries.length

/-- The value under a key of a list of entries is that of the first entry with the key. -/
theorem lookup_cons (name other : String) (value : α) (entries : List (String × α)) :
    ((name, value) :: entries).lookup other =
      if other = name then some value else entries.lookup other := by
  rw [List.lookup_cons]
  by_cases same : other = name
  · simp [same]
  · simp [same, beq_eq_false_iff_ne.2 same]

theorem lookup_insertEntry (entries : List (String × α)) (key other : String) (value : α) :
    (insertEntry key value entries).lookup other =
      if other = key then some value else entries.lookup other := by
  induction entries with
  | nil => rw [insertEntry, lookup_cons]
  | cons entry rest ih =>
    obtain ⟨name, stored⟩ := entry
    rw [insertEntry]
    by_cases found : name = key
    · subst found
      simp only [↓reduceIte, lookup_cons]
      split <;> rfl
    · simp only [found, ↓reduceIte, lookup_cons, ih]
      by_cases same : other = key
      · simp [same, Ne.symm found]
      · simp [same]

/-- Reading after writing: the written key gives the new value, every other key is untouched. -/
@[simp] theorem get?_insert (table : Table α) (key other : String) (value : α) :
    (table.insert key value).get? other = if other = key then some value else table.get? other :=
  lookup_insertEntry table.entries key other value

end Table

end ExprLang
