/-!
Tables: finite maps from names to values, kept as lists in the order of the names. Names are
ordered by code point. Two tables with the same entries are equal, so that tables can be
compared as a whole.
-/

namespace OneCounter

structure Table (α : Type) where
  entries : List (String × α)
  sorted : entries.Pairwise fun a b => a.1 < b.1
deriving DecidableEq

namespace Table

variable {α β : Type}

/-! ### Sorted entry lists -/

def find? (name : String) : List (String × α) → Option α
  | [] => none
  | (key, value) :: rest => if name = key then some value else find? name rest

def insertEntry (name : String) (value : α) : List (String × α) → List (String × α)
  | [] => [(name, value)]
  | (key, old) :: rest =>
      if name < key then (name, value) :: (key, old) :: rest
      else if name = key then (name, value) :: rest
      else (key, old) :: insertEntry name value rest

theorem mem_insertEntry {name : String} {value : α} {list : List (String × α)}
    {entry : String × α} (member : entry ∈ insertEntry name value list) :
    entry = (name, value) ∨ entry ∈ list := by
  induction list with
  | nil => simpa [insertEntry] using member
  | cons head rest ih =>
      obtain ⟨key, old⟩ := head
      simp only [insertEntry] at member
      split at member
      · simpa using member
      · split at member
        · rcases List.mem_cons.mp member with same | inside
          · exact Or.inl same
          · exact Or.inr (List.mem_cons_of_mem _ inside)
        · rcases List.mem_cons.mp member with same | inside
          · exact Or.inr (by simp [same])
          · rcases ih inside with same | inside
            · exact Or.inl same
            · exact Or.inr (List.mem_cons_of_mem _ inside)

theorem lt_of_not_lt_of_ne {a b : String} (notBefore : ¬ a < b) (different : a ≠ b) : b < a := by
  rcases String.le_total b a with le | le
  · exact Decidable.byContradiction fun notAfter =>
      different (String.le_antisymm (String.not_lt.mp notAfter) le)
  · exact absurd (String.le_antisymm le (String.not_lt.mp notBefore)) different

theorem sorted_insertEntry (name : String) (value : α) {list : List (String × α)}
    (sorted : list.Pairwise fun a b => a.1 < b.1) :
    (insertEntry name value list).Pairwise fun a b => a.1 < b.1 := by
  induction list with
  | nil => simp [insertEntry]
  | cons head rest ih =>
      obtain ⟨key, old⟩ := head
      have parts := List.pairwise_cons.mp sorted
      simp only [insertEntry]
      split
      · next before =>
          refine List.pairwise_cons.mpr ⟨fun entry member => ?_, sorted⟩
          rcases List.mem_cons.mp member with same | inside
          · subst same; exact before
          · exact String.lt_trans before (parts.1 entry inside)
      · next notBefore =>
          split
          · next same => subst same; exact List.pairwise_cons.mpr parts
          · next different =>
              refine List.pairwise_cons.mpr ⟨fun entry member => ?_, ih parts.2⟩
              rcases mem_insertEntry member with same | inside
              · subst same; exact lt_of_not_lt_of_ne notBefore different
              · exact parts.1 entry inside

/-! ### The operations -/

def empty : Table α := ⟨[], List.Pairwise.nil⟩

instance : Inhabited (Table α) := ⟨empty⟩

def get? (table : Table α) (name : String) : Option α := find? name table.entries

def contains (table : Table α) (name : String) : Bool := (table.get? name).isSome

/-- Puts a value under a name, in place of the value that was there. -/
def insert (table : Table α) (name : String) (value : α) : Table α :=
  ⟨insertEntry name value table.entries, sorted_insertEntry name value table.sorted⟩

def erase (table : Table α) (name : String) : Table α :=
  ⟨table.entries.filter fun entry => entry.1 ≠ name, table.sorted.sublist List.filter_sublist⟩

def keys (table : Table α) : List String := table.entries.map Prod.fst

def values (table : Table α) : List α := table.entries.map Prod.snd

def size (table : Table α) : Nat := table.entries.length

def isEmpty (table : Table α) : Bool := table.entries.isEmpty

/-- Replaces each value, given its name. -/
def map (f : String → α → β) (table : Table α) : Table β :=
  ⟨table.entries.map fun entry => (entry.1, f entry.1 entry.2), List.pairwise_map.mpr table.sorted⟩

/-- The entries whose name and value pass a test. -/
def filter (keep : String → α → Bool) (table : Table α) : Table α :=
  ⟨table.entries.filter fun entry => keep entry.1 entry.2, table.sorted.sublist List.filter_sublist⟩

/-- Replaces the value under a name, if there is one. -/
def modify (table : Table α) (name : String) (f : α → α) : Table α :=
  table.map fun key value => if key = name then f value else value

/-! ### Looking up -/

@[ext]
theorem ext {left right : Table α} (same : left.entries = right.entries) : left = right := by
  cases left; cases right; cases same; rfl

@[simp]
theorem get?_empty (name : String) : (empty : Table α).get? name = none := rfl

theorem find?_insertEntry (name : String) (value : α) (list : List (String × α)) (other : String) :
    find? other (insertEntry name value list) =
      if other = name then some value else find? other list := by
  induction list with
  | nil => rfl
  | cons head rest ih =>
      obtain ⟨key, old⟩ := head
      simp only [insertEntry]
      split
      · rfl
      · split
        · next same => subst same; simp only [find?]; split <;> rfl
        · next different =>
            simp only [find?, ih]
            by_cases here : other = key
            · subst here; simp [Ne.symm different]
            · simp [here]

theorem get?_insert (table : Table α) (name : String) (value : α) (other : String) :
    (table.insert name value).get? other =
      if other = name then some value else table.get? other :=
  find?_insertEntry name value table.entries other

theorem get?_map (f : String → α → β) (table : Table α) (name : String) :
    (table.map f).get? name = (table.get? name).map (f name) := by
  simp only [get?, map]
  induction table.entries with
  | nil => rfl
  | cons head rest ih =>
      simp only [List.map_cons, find?, ih]
      split
      · next same => simp [same]
      · rfl

theorem get?_modify (table : Table α) (name : String) (f : α → α) (other : String) :
    (table.modify name f).get? other =
      if other = name then (table.get? other).map f else table.get? other := by
  rw [modify, get?_map]
  by_cases same : other = name
  · simp [same]
  · simp [same]

theorem mem_of_find? {name : String} {value : α} {list : List (String × α)}
    (found : find? name list = some value) : (name, value) ∈ list := by
  induction list with
  | nil => simp [find?] at found
  | cons head rest ih =>
      simp only [find?] at found
      split at found
      · next same =>
          injection found with found
          rw [same, ← found]
          exact List.mem_cons_self
      · exact List.mem_cons_of_mem _ (ih found)

theorem find?_of_mem {name : String} {value : α} {list : List (String × α)}
    (sorted : list.Pairwise fun a b => a.1 < b.1) (member : (name, value) ∈ list) :
    find? name list = some value := by
  induction list with
  | nil => simp at member
  | cons head rest ih =>
      have parts := List.pairwise_cons.mp sorted
      rcases List.mem_cons.mp member with same | inside
      · simp [find?, ← same]
      · have before : head.1 < name := parts.1 _ inside
        have different : name ≠ head.1 := by
          intro same
          rw [← same] at before
          exact String.lt_irrefl name before
        simp [find?, different, ih parts.2 inside]

theorem get?_eq_some_iff (table : Table α) (name : String) (value : α) :
    table.get? name = some value ↔ (name, value) ∈ table.entries :=
  ⟨mem_of_find?, find?_of_mem table.sorted⟩

theorem get?_filter (keep : String → α → Bool) (table : Table α) (name : String) :
    (table.filter keep).get? name = (table.get? name).filter (keep name) := by
  apply Option.ext
  intro value
  simp only [get?_eq_some_iff, filter, List.mem_filter, Option.filter_eq_some_iff]

theorem get?_erase (table : Table α) (name : String) (other : String) :
    (table.erase name).get? other = if other = name then none else table.get? other := by
  apply Option.ext
  intro value
  by_cases same : other = name
  · subst same
    simp [get?_eq_some_iff, erase]
  · simp [get?_eq_some_iff, erase, same]

theorem nodup_of_sorted {list : List (String × α)}
    (sorted : list.Pairwise fun a b => a.1 < b.1) : list.Nodup :=
  List.Pairwise.imp (fun {a b} (before : a.1 < b.1) (same : a = b) =>
    String.lt_irrefl b.1 (same ▸ before)) sorted

theorem eq_of_find?_eq {left right : List (String × α)}
    (leftSorted : left.Pairwise fun a b => a.1 < b.1)
    (rightSorted : right.Pairwise fun a b => a.1 < b.1)
    (same : ∀ name, find? name left = find? name right) : left = right := by
  have members : ∀ entry, entry ∈ left ↔ entry ∈ right := by
    intro entry
    constructor
    · intro member
      exact mem_of_find? (by rw [← same]; exact find?_of_mem leftSorted member)
    · intro member
      exact mem_of_find? (by rw [same]; exact find?_of_mem rightSorted member)
  exact List.Perm.eq_of_pairwise
    (fun a b _ _ forth back => absurd back (String.lt_asymm forth))
    leftSorted rightSorted
    ((List.perm_ext_iff_of_nodup (nodup_of_sorted leftSorted)
      (nodup_of_sorted rightSorted)).mpr members)

/-- Tables that hold the same under every name are equal. -/
theorem eq_of_get?_eq {left right : Table α} (same : ∀ name, left.get? name = right.get? name) :
    left = right :=
  ext (eq_of_find?_eq left.sorted right.sorted same)

theorem mem_keys_iff (table : Table α) (name : String) :
    name ∈ table.keys ↔ (table.get? name).isSome = true := by
  rw [Option.isSome_iff_exists, keys, List.mem_map]
  constructor
  · rintro ⟨⟨key, value⟩, member, rfl⟩
    exact ⟨value, (get?_eq_some_iff table key value).mpr member⟩
  · rintro ⟨value, found⟩
    exact ⟨(name, value), (get?_eq_some_iff table name value).mp found, rfl⟩

end Table

end OneCounter
