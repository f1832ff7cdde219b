import Mathlib.Data.List.Forall2
import Stencil.Table

/-!
Tables that extend each other, tables with related values, and properties of every value.
-/

namespace Stencil

namespace Table

variable {α β : Type}

/-- Every entry that is found in one table is found in the other. -/
def Within (t t' : Table α) : Prop :=
  ∀ key v, get? t key = some v → get? t' key = some v

theorem Within.refl (t : Table α) : Within t t :=
  fun _ _ h => h

theorem Within.trans {t t' t'' : Table α} (h : Within t t') (h' : Within t' t'') : Within t t'' :=
  fun key v found => h' key v (h key v found)

theorem Within.insert {t : Table α} {key : String} (h : get? t key = none) (v : α) :
    Within t (insert t key v) := by
  intro other v' found
  rw [get?_insert, if_neg]
  · exact found
  · rintro rfl
    rw [h] at found
    cases found

theorem get?_insert_self (t : Table α) (key : String) (v : α) :
    get? (insert t key v) key = some v := by
  rw [get?_insert, if_pos rfl]

theorem isSome_get?_insert {t : Table α} {key other : String} {v : α} :
    (get? (insert t key v) other).isSome = true ↔
      other = key ∨ (get? t other).isSome = true := by
  rw [get?_insert]
  split
  · next same => simp [same]
  · next different => simp [Ne.symm different]

theorem get?_erase_of_ne (t : Table α) {key other : String} (h : other ≠ key) :
    get? (erase t key) other = get? t other := by
  induction t with
  | nil => rfl
  | cons e t ih => grind [erase, get?]

theorem mem_keys_iff {t : Table α} {key : String} : key ∈ keys t ↔ (get? t key).isSome = true := by
  induction t with
  | nil => simp [keys, get?]
  | cons e t ih => grind [get?, keys]

theorem mem_of_get? {t : Table α} {key : String} {v : α} (h : get? t key = some v) :
    (key, v) ∈ t := by
  induction t with
  | nil => cases h
  | cons e t ih => grind [get?]

/-- A new key comes last. -/
theorem insert_of_new {t : Table α} {key : String} (h : get? t key = none) (v : α) :
    insert t key v = t ++ [(key, v)] := by
  induction t with
  | nil => rfl
  | cons first t ih => grind [insert, get?]

theorem mem_insert_of_new {t : Table α} {key : String} (h : get? t key = none) (v : α)
    {e : String × α} : e ∈ insert t key v ↔ e ∈ t ∨ e = (key, v) := by
  induction t with
  | nil => simp [insert]
  | cons first t ih => grind [insert, get?]

theorem mem_of_mem_insert {t : Table α} {key : String} {v : α} {e : String × α}
    (h : e ∈ insert t key v) : e ∈ t ∨ e = (key, v) := by
  induction t with
  | nil => exact .inr (List.mem_singleton.mp h)
  | cons first t ih => grind [insert]

theorem nodup_keys_insert {t : Table α} (h : (keys t).Nodup) (key : String) (v : α) :
    (keys (insert t key v)).Nodup := by
  rw [keys_insert]
  split
  · exact h
  · next new =>
    refine List.nodup_append.mpr ⟨h, by simp, fun other member other' here => ?_⟩
    rintro rfl
    rw [List.mem_singleton.mp here] at member
    exact new member

/-- With distinct keys an entry is what is found under its key. -/
theorem get?_of_mem {t : Table α} (h : (keys t).Nodup) {key : String} {v : α} (member : (key, v) ∈ t) :
    get? t key = some v := by
  induction t with
  | nil => cases member
  | cons first t ih => grind [get?, keys]

theorem insert_of_get? {t : Table α} {key : String} {v : α} (h : get? t key = some v) :
    insert t key v = t := by
  induction t with
  | nil => cases h
  | cons first t ih => grind [insert, get?]

theorem mem_of_get?_extend {t other : Table α} {key : String} {v : α}
    (h : get? (extend t other) key = some v) : (key, v) ∈ other ∨ get? t key = some v := by
  induction other generalizing t with
  | nil => exact .inr h
  | cons e other ih =>
      rcases ih h with later | found
      · exact .inl (.tail _ later)
      · rw [get?_insert] at found
        split at found
        · next same =>
          cases found
          exact .inl (same ▸ .head _)
        · exact .inr found

theorem isSome_get?_extend {t other : Table α} {key : String} {v : α}
    (h : (key, v) ∈ other ∨ (get? t key).isSome = true) :
    (get? (extend t other) key).isSome = true := by
  induction other generalizing t with
  | nil =>
      rcases h with ⟨⟨⟩⟩ | found
      exact found
  | cons e other ih =>
      refine ih ?_
      rw [get?_insert]
      rcases h with ⟨⟨⟩⟩ | found
      · exact .inr (by rw [if_pos rfl]; rfl)
      · exact .inl ‹_›
      · split
        · exact .inr rfl
        · exact .inr found

/-- What is found in a table of entries is one of them. -/
theorem mem_of_get?_ofEntries {entries : List (String × α)} {key : String} {v : α}
    (h : get? (ofEntries entries) key = some v) : (key, v) ∈ entries := by
  rcases mem_of_get?_extend h with member | ⟨⟨⟩⟩
  exact member

theorem isSome_get?_ofEntries {entries : List (String × α)} {key : String} {v : α}
    (h : (key, v) ∈ entries) : (get? (ofEntries entries) key).isSome = true :=
  isSome_get?_extend (.inl h)

/-! ### Related tables -/

/-- Tables with the same keys in the same order, and related values under them. -/
def Rel (r : String → α → β → Prop) (t : Table α) (t' : Table β) : Prop :=
  List.Forall₂ (fun e e' => e.1 = e'.1 ∧ r e.1 e.2 e'.2) t t'

variable {r : String → α → β → Prop} {t : Table α} {t' : Table β}

theorem Rel.get? (h : Rel r t t') (key : String) :
    Option.Rel (r key) (get? t key) (get? t' key) := by
  induction h with
  | nil => exact .none
  | @cons e e' t t' first _ ih =>
      obtain ⟨k, v⟩ := e
      obtain ⟨k', v'⟩ := e'
      obtain ⟨same, related⟩ := first
      cases same
      simp only [Table.get?]
      split
      · next here =>
        cases here
        exact .some related
      · exact ih

theorem Rel.contains_eq (h : Rel r t t') (key : String) : contains t key = contains t' key := by
  have found := h.get? key
  rw [contains, contains]
  generalize Table.get? t key = v, Table.get? t' key = v' at found ⊢
  cases found <;> rfl

theorem Rel.insert (h : Rel r t t') {key : String} {v : α} {v' : β} (related : r key v v') :
    Rel r (insert t key v) (insert t' key v') := by
  induction h with
  | nil => exact .cons ⟨rfl, related⟩ .nil
  | @cons e e' t t' first others ih =>
      obtain ⟨k, w⟩ := e
      obtain ⟨k', w'⟩ := e'
      obtain ⟨same, before⟩ := first
      cases same
      simp only [Table.insert]
      split
      · next here =>
        cases here
        exact .cons ⟨rfl, related⟩ others
      · exact .cons ⟨rfl, before⟩ ih

/-- Tables with the same values under the same keys are the same. -/
theorem Rel.eq {t t' : Table α} (h : Rel (fun _ => Eq) t t') : t = t' := by
  induction h with
  | nil => rfl
  | cons first _ ih => exact congrArg₂ List.cons (Prod.ext first.1 first.2) ih

theorem Rel.keys_eq (h : Rel r t t') : keys t = keys t' := by
  induction h with
  | nil => rfl
  | cons first _ ih => exact congrArg₂ List.cons first.1 ih

theorem Rel.extend (start : Rel r t t') {other : Table α} {other' : Table β}
    (h : Rel r other other') : Rel r (extend t other) (extend t' other') := by
  induction h generalizing t t' with
  | nil => exact start
  | @cons e e' _ _ first _ ih =>
      obtain ⟨k, v⟩ := e
      obtain ⟨k', v'⟩ := e'
      obtain ⟨same, related⟩ := first
      cases same
      exact ih (start.insert related)

theorem Rel.ofEntries {entries : List (String × α)} {entries' : List (String × β)}
    (h : List.Forall₂ (fun e e' => e.1 = e'.1 ∧ r e.1 e.2 e'.2) entries entries') :
    Rel r (ofEntries entries) (ofEntries entries') :=
  Rel.extend .nil h

theorem Rel.isEmpty_eq (h : Rel r t t') : t.isEmpty = t'.isEmpty := by
  cases h <;> rfl

/-- The first layer that has a key is the same in related layers. -/
theorem Rel.findSome? {layers : List (Table α)} {layers' : List (Table β)}
    (h : List.Forall₂ (Rel r) layers layers') (key : String) :
    Option.Rel (r key) (layers.findSome? fun layer => Table.get? layer key)
      (layers'.findSome? fun layer => Table.get? layer key) := by
  induction h with
  | nil => exact .none
  | @cons layer layer' layers layers' first _ ih =>
      have found := first.get? key
      rw [List.findSome?_cons, List.findSome?_cons]
      revert found
      generalize Table.get? layer key = v, Table.get? layer' key = v'
      rintro (related | _)
      · exact .some related
      · exact ih

/-- Every value of a table satisfies `p`. -/
def All (p : α → Prop) (t : Table α) : Prop :=
  ∀ e ∈ t, p e.2

variable {p : α → Prop}

theorem All.get? {t : Table α} (h : All p t) {key : String} {v : α}
    (found : Table.get? t key = some v) : p v :=
  h _ (mem_of_get? found)

theorem All.insert {t : Table α} (h : All p t) (key : String) {v : α} (hv : p v) :
    All p (insert t key v) := by
  intro e member
  rcases mem_of_mem_insert member with before | rfl
  · exact h e before
  · exact hv

theorem All.extend {t other : Table α} (h : All p t) (h' : All p other) :
    All p (extend t other) := by
  induction other generalizing t with
  | nil => exact h
  | cons e other ih =>
      exact ih (h.insert e.1 (h' e (.head _))) fun e member => h' e (.tail _ member)

theorem All.ofEntries {entries : List (String × α)} (h : ∀ e ∈ entries, p e.2) :
    All p (ofEntries entries) :=
  All.extend (t := []) nofun h

/-- What the first layer that knows a key has for it. -/
theorem All.findSome? {layers : List (Table α)} (h : ∀ layer ∈ layers, All p layer) {key : String}
    {v : α} (found : layers.findSome? (fun layer => Table.get? layer key) = some v) : p v := by
  obtain ⟨layer, member, found⟩ := List.exists_of_findSome?_eq_some found
  exact (h layer member).get? found

end Table

end Stencil
