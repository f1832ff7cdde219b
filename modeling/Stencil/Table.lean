/-!
Tables: entries in the order in which their keys were first inserted.

Named arguments, objects, inline partials and registered partials all show
their entries in this order, so a table is a list of entries and the
order is part of the value. Inserting under a key that is present replaces
the entry where it stands.
-/

namespace Stencil

abbrev Table (α : Type) := List (String × α)

namespace Table

variable {α : Type}

def get? : Table α → String → Option α
  | [], _ => none
  | (k, v) :: t, key => if k = key then some v else get? t key

def contains (t : Table α) (key : String) : Bool :=
  (get? t key).isSome

def insert : Table α → String → α → Table α
  | [], key, value => [(key, value)]
  | (k, v) :: t, key, value => if k = key then (k, value) :: t else (k, v) :: insert t key value

def keys (t : Table α) : List String :=
  t.map (·.1)

/-- The table of a list of entries; a repeated key keeps its first place and
takes its last value. -/
def ofEntries (entries : List (String × α)) : Table α :=
  entries.foldl (fun t (k, v) => insert t k v) []

/-- All entries of `t`, and then those of `other`, which win. -/
def extend (t other : Table α) : Table α :=
  other.foldl (fun t (k, v) => insert t k v) t

def erase : Table α → String → Table α
  | [], _ => []
  | (k, v) :: t, key => if k = key then t else (k, v) :: erase t key

theorem get?_insert (t : Table α) (k key : String) (v : α) :
    get? (insert t k v) key = if k = key then some v else get? t key := by
  induction t with
  | nil => simp [insert, get?]
  | cons e t ih => grind [insert, get?]

/-- A key that is present keeps its place, and a new one comes last. -/
theorem keys_insert (t : Table α) (k : String) (v : α) :
    keys (insert t k v) = if k ∈ keys t then keys t else keys t ++ [k] := by
  induction t with
  | nil => simp [insert, keys]
  | cons e t ih => grind [insert, keys]

theorem length_erase_lt {t : Table α} {key : String} {v : α} (h : get? t key = some v) :
    (erase t key).length < t.length := by
  induction t with
  | nil => simp [get?] at h
  | cons e t ih => grind [get?, erase]

end Table

end Stencil
