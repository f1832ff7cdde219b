import Mathlib.Data.List.Perm.Subperm
import Stencil.Proofs.Table
import Stencil.Value.Equality

/-!
Equality of values is an equivalence.

A value is well-formed when no object in it has two fields of one name, however deep the object
lies. Such a value equals itself, and what equals it is equal to it from the other side too; both
need the distinct names, because a field is compared with what is found under its name. Equal
values may be chained, well-formed or not. Numbers are compared by their nearest doubles, which
is the kernel of a map up to the sign of zero, so integers and doubles of any size take part.
-/

namespace Stencil

namespace Value

mutual

/-- Whether no object in the value has two fields of one name. -/
def isWellFormed : Value → Bool
  | array items => allWellFormed items
  | object fields => decide (Table.keys fields).Nodup && fieldsWellFormed fields
  | iterable _ items => allWellFormed items
  | _ => true

def allWellFormed : List Value → Bool
  | [] => true
  | v :: vs => isWellFormed v && allWellFormed vs

def fieldsWellFormed : List (String × Value) → Bool
  | [] => true
  | (_, v) :: fields => isWellFormed v && fieldsWellFormed fields

end

/-- Distinct names of well-formed values. -/
structure WellFormedFields (fields : Fields) : Prop where
  keys : (Table.keys fields).Nodup
  values : Table.All (fun v => v.isWellFormed = true) fields

theorem allWellFormed_iff {items : List Value} :
    allWellFormed items = true ↔ ∀ v ∈ items, v.isWellFormed = true := by
  induction items with
  | nil => simp [allWellFormed]
  | cons v items ih => rw [allWellFormed, Bool.and_eq_true, ih, List.forall_mem_cons]

theorem fieldsWellFormed_iff {fields : Fields} :
    fieldsWellFormed fields = true ↔ Table.All (fun v => v.isWellFormed = true) fields := by
  induction fields with
  | nil => simp [fieldsWellFormed, Table.All]
  | cons e fields ih =>
      rw [fieldsWellFormed, Bool.and_eq_true, ih, Table.All, Table.All, List.forall_mem_cons]

theorem isWellFormed_object {fields : Fields} :
    (object fields).isWellFormed = true ↔ WellFormedFields fields := by
  rw [isWellFormed, Bool.and_eq_true, decide_eq_true_eq, fieldsWellFormed_iff]
  exact ⟨fun ⟨keys, values⟩ => ⟨keys, values⟩, fun h => ⟨h.keys, h.values⟩⟩

/-! ### What equality compares -/

/-- What two equal values have in common: their kind, and parts that are equal. -/
inductive SameKind : Value → Value → Prop
  | null : SameKind null null
  | bool (b : Bool) : SameKind (bool b) (bool b)
  | number {m n : Number} (same : m.same n = true) : SameKind (number m) (number n)
  | string (s : String) : SameKind (string s) (string s)
  | safe (s : String) : SameKind (safe s) (safe s)
  | array {vs ws : List Value} (items : sameItems vs ws = true) : SameKind (array vs) (array ws)
  | object {fields fields' : Fields} (length : fields.length = fields'.length)
    (entries : sameEntries fields fields' = true) : SameKind (object fields) (object fields')
  | iterable (id : Nat) (vs ws : List Value) : SameKind (iterable id vs) (iterable id ws)
  | callable (id : Nat) : SameKind (callable id) (callable id)

theorem same_iff {v w : Value} : same v w = true ↔ SameKind v w := by
  constructor
  · intro h
    cases v <;> cases w <;> simp only [same, Bool.false_eq_true, Bool.and_eq_true, beq_iff_eq] at h
    case null.null => exact .null
    case bool.bool b _ => exact h ▸ .bool b
    case number.number => exact .number h
    case string.string s _ => exact h ▸ .string s
    case safe.safe s _ => exact h ▸ .safe s
    case array.array => exact .array h
    case object.object => exact .object h.1 h.2
    case iterable.iterable id vs _ ws => exact h ▸ .iterable id vs ws
    case callable.callable id _ => exact h ▸ .callable id
  · intro h
    cases h with
    | number same => exact same
    | array items => exact items
    | object length entries => rw [same, length, beq_self_eq_true, entries, Bool.true_and]
    | _ => simp [same]

/-- Each entry has an equal one under its name. -/
theorem sameEntries_iff {as : List (String × Value)} {bs : Fields} :
    sameEntries as bs = true ↔
      ∀ e ∈ as, ∃ w, Table.get? bs e.1 = some w ∧ same e.2 w = true := by
  induction as with
  | nil => simp [sameEntries]
  | cons e as ih =>
      obtain ⟨k, a⟩ := e
      rw [sameEntries, Bool.and_eq_true, ih, List.forall_mem_cons]
      refine and_congr_left fun _ => ?_
      cases Table.get? bs k <;> simp

/-- An object with distinct names that has its names in another one of its size has the same
names. -/
theorem keys_perm {fields fields' : Fields} (distinct : (Table.keys fields).Nodup)
    (length : fields.length = fields'.length)
    (found : ∀ e ∈ fields, (Table.get? fields' e.1).isSome = true) :
    (Table.keys fields).Perm (Table.keys fields') := by
  have sub : Table.keys fields ⊆ Table.keys fields' := by
    intro k member
    obtain ⟨e, here, rfl⟩ := List.mem_map.mp member
    exact Table.mem_keys_iff.mpr (found e here)
  refine (List.Nodup.subperm distinct sub).perm_of_length_le ?_
  simp only [Table.keys, List.length_map]
  exact Nat.le_of_eq length.symm

/-- Turns the comparison of two objects around, one entry at a time. -/
theorem sameEntries_symm {fields fields' : Fields} (distinct : (Table.keys fields).Nodup)
    (length : fields.length = fields'.length) (h : sameEntries fields fields' = true)
    (turn : ∀ e ∈ fields, ∀ w, same e.2 w = true → same w e.2 = true) :
    sameEntries fields' fields = true := by
  have entries := sameEntries_iff.mp h
  have perm := keys_perm distinct length fun e member => by
    obtain ⟨w, found, -⟩ := entries e member
    rw [found]
    rfl
  refine sameEntries_iff.mpr fun e member => ?_
  have named : e.1 ∈ Table.keys fields := perm.mem_iff.mpr (List.mem_map_of_mem member)
  obtain ⟨a, found⟩ := Option.isSome_iff_exists.mp (Table.mem_keys_iff.mp named)
  -- What `a` is compared with is found under its name, and that is `e` alone.
  obtain ⟨w, found', equal⟩ := entries _ (Table.mem_of_get? found)
  rw [Table.get?_of_mem (perm.nodup_iff.mp distinct) member] at found'
  cases found'
  exact ⟨a, found, turn _ (Table.mem_of_get? found) _ equal⟩

/-! ### The laws -/

mutual

theorem same_refl : (v : Value) → v.isWellFormed = true → same v v = true
  | .null, _ => rfl
  | .bool b, _ => beq_self_eq_true b
  | .number n, _ => n.same_refl
  | .string s, _ => beq_self_eq_true s
  | .safe s, _ => beq_self_eq_true s
  | .array items, h => sameItems_refl items h
  | .object fields, h => by
      obtain ⟨keys, values⟩ := isWellFormed_object.mp h
      refine same_iff.mpr (.object rfl (sameEntries_refl fields ?_ fun e member => ?_))
      · exact fieldsWellFormed_iff.mpr values
      · exact Table.get?_of_mem keys member
  | .iterable id _, _ => beq_self_eq_true id
  | .callable id, _ => beq_self_eq_true id

theorem sameItems_refl : (vs : List Value) → allWellFormed vs = true → sameItems vs vs = true
  | [], _ => rfl
  | v :: vs, h => by
      obtain ⟨first, others⟩ := Bool.and_eq_true_iff.mp h
      rw [sameItems, same_refl v first, sameItems_refl vs others, Bool.true_and]

theorem sameEntries_refl : (as : List (String × Value)) → fieldsWellFormed as = true →
    ∀ {bs : Fields}, (∀ e ∈ as, Table.get? bs e.1 = some e.2) → sameEntries as bs = true
  | [], _, _, _ => rfl
  | (k, a) :: as, h, bs, found => by
      obtain ⟨first, others⟩ := Bool.and_eq_true_iff.mp h
      obtain ⟨here, found⟩ := List.forall_mem_cons.mp found
      rw [sameEntries, here, sameEntries_refl as others found]
      simp only [same_refl a first, Bool.true_and]

end

mutual

theorem same_symm : (v : Value) → v.isWellFormed = true → ∀ w, same v w = true → same w v = true
  | .null, _, _, h => by
      cases same_iff.mp h
      exact h
  | .bool _, _, _, h => by
      cases same_iff.mp h
      exact h
  | .number _, _, _, h => by
      cases same_iff.mp h with
      | number same => exact (Number.same_comm _ _).trans same
  | .string _, _, _, h => by
      cases same_iff.mp h
      exact h
  | .safe _, _, _, h => by
      cases same_iff.mp h
      exact h
  | .array items, wf, _, h => by
      cases same_iff.mp h with
      | array equal => exact sameItems_symm items wf _ equal
  | .object fields, wf, _, h => by
      obtain ⟨keys, values⟩ := isWellFormed_object.mp wf
      cases same_iff.mp h with
      | object length equal =>
          have turned := sameEntries_symm keys length equal
            (entries_symm fields (fieldsWellFormed_iff.mpr values))
          exact same_iff.mpr (.object length.symm turned)
  | .iterable _ _, _, _, h => by
      cases same_iff.mp h
      exact h
  | .callable _, _, _, h => by
      cases same_iff.mp h
      exact h

theorem sameItems_symm : (vs : List Value) → allWellFormed vs = true →
    ∀ ws, sameItems vs ws = true → sameItems ws vs = true
  | [], _, ws, h => by
      cases ws with
      | nil => rfl
      | cons => cases h
  | v :: vs, wf, ws, h => by
      cases ws with
      | nil => cases h
      | cons w ws =>
          obtain ⟨first, others⟩ := Bool.and_eq_true_iff.mp wf
          obtain ⟨equal, rest⟩ := Bool.and_eq_true_iff.mp h
          rw [sameItems, same_symm v first w equal, sameItems_symm vs others ws rest, Bool.true_and]

theorem entries_symm : (as : List (String × Value)) → fieldsWellFormed as = true →
    ∀ e ∈ as, ∀ w, same e.2 w = true → same w e.2 = true
  | [], _, _, member, _, _ => nomatch member
  | (k, a) :: as, wf, e, member, w, h => by
      obtain ⟨first, others⟩ := Bool.and_eq_true_iff.mp wf
      cases member with
      | head => exact same_symm a first w h
      | tail _ later => exact entries_symm as others e later w h

end

mutual

theorem same_trans : (u : Value) → ∀ {v w : Value}, same u v = true → same v w = true →
    same u w = true
  | .null, _, _, h, h' => by
      cases same_iff.mp h
      exact h'
  | .bool _, _, _, h, h' => by
      cases same_iff.mp h
      exact h'
  | .number _, _, _, h, h' => by
      cases same_iff.mp h with
      | number same =>
          cases same_iff.mp h' with
          | number same' => exact Number.same_trans same same'
  | .string _, _, _, h, h' => by
      cases same_iff.mp h
      exact h'
  | .safe _, _, _, h, h' => by
      cases same_iff.mp h
      exact h'
  | .array items, _, _, h, h' => by
      cases same_iff.mp h with
      | array equal =>
          cases same_iff.mp h' with
          | array equal' => exact sameItems_trans items equal equal'
  | .object fields, _, _, h, h' => by
      cases same_iff.mp h with
      | object length equal =>
          cases same_iff.mp h' with
          | object length' equal' =>
              have chained := sameEntries_trans fields equal (sameEntries_iff.mp equal')
              exact same_iff.mpr (.object (length.trans length') chained)
  | .iterable _ _, _, _, h, h' => by
      cases same_iff.mp h
      cases same_iff.mp h'
      exact h'
  | .callable _, _, _, h, h' => by
      cases same_iff.mp h
      exact h'

theorem sameItems_trans : (us : List Value) → ∀ {vs ws : List Value}, sameItems us vs = true →
    sameItems vs ws = true → sameItems us ws = true
  | [], vs, ws, h, h' => by
      cases vs with
      | nil => exact h'
      | cons => cases h
  | u :: us, vs, ws, h, h' => by
      cases vs with
      | nil => cases h
      | cons v vs =>
          cases ws with
          | nil => cases h'
          | cons w ws =>
              obtain ⟨first, others⟩ := Bool.and_eq_true_iff.mp h
              obtain ⟨first', others'⟩ := Bool.and_eq_true_iff.mp h'
              rw [sameItems, same_trans u first first', sameItems_trans us others others',
                Bool.true_and]

theorem sameEntries_trans : (as : List (String × Value)) → ∀ {bs cs : Fields},
    sameEntries as bs = true →
      (∀ e ∈ bs, ∃ w, Table.get? cs e.1 = some w ∧ same e.2 w = true) → sameEntries as cs = true
  | [], _, _, _, _ => rfl
  | (k, a) :: as, bs, cs, h, h' => by
      obtain ⟨⟨b, found, first⟩, others⟩ := List.forall_mem_cons.mp (sameEntries_iff.mp h)
      obtain ⟨c, found', first'⟩ := h' _ (Table.mem_of_get? found)
      rw [sameEntries, found', sameEntries_trans as (sameEntries_iff.mpr others) h']
      simp only [same_trans a first first', Bool.true_and]

end

/-- On well-formed values equality is an equivalence. -/
theorem same_equivalence :
    Equivalence fun v w : { v : Value // v.isWellFormed = true } => v.1.same w.1 = true where
  refl v := same_refl v.1 v.2
  symm {v w} h := same_symm v.1 v.2 w.1 h
  trans {v _ _} h h' := same_trans v.1 h h'

end Value

end Stencil
