import Stencil.Proofs.Table
import Stencil.Value.Equality
import Stencil.Render.Section

/-!
Values that a render cannot tell apart.

Equal values may differ in what they show: two numbers with one nearest double have different
texts, and objects are equal in any order of their keys. Values are alike when they are equal all
the way down and show the same. Whatever the renderer asks of a value has the same answer for
values that are alike, and parts of them are alike; in particular equality does not tell them
apart.
-/

namespace Stencil

theorem Double.isZero_of_same {x y : Double} (h : x.same y = true) : x.isZero = y.isZero := by
  simp only [Double.same, Bool.and_eq_true, beq_iff_eq] at h
  rw [Double.isZero, Double.isZero, h.1]

namespace Number

variable {m n : Number}

theorem isZero_of_same (h : m.same n = true) : m.isZero = n.isZero := by
  unfold same at h
  unfold isZero
  revert h
  generalize m.toDouble? = x, n.toDouble? = y
  intro h
  cases x with
  | none => cases y <;> first | rfl | cases h
  | some x =>
      cases y with
      | none => cases h
      | some y => exact Double.isZero_of_same h

theorem same_left (h : m.same n = true) (k : Number) : m.same k = n.same k :=
  Bool.eq_iff_iff.mpr ⟨same_trans ((same_comm n m).trans h), same_trans h⟩

theorem same_right (k : Number) (h : m.same n = true) : k.same m = k.same n := by
  rw [same_comm k m, same_comm k n, same_left h]

end Number

namespace Value

/-- Equal values with the same texts, and the same keys in the same order. -/
inductive Alike : Value → Value → Prop
  | null : Alike null null
  | bool (b : Bool) : Alike (bool b) (bool b)
  | number {m n : Number} (same : m.same n = true) (text : m.text = n.text) :
    Alike (number m) (number n)
  | string (s : String) : Alike (string s) (string s)
  | safe (s : String) : Alike (safe s) (safe s)
  | array {vs ws : List Value} (items : List.Forall₂ Alike vs ws) : Alike (array vs) (array ws)
  | object {fields fields' : Fields} (keys : fields.map (·.1) = fields'.map (·.1))
    (values : List.Forall₂ Alike (fields.map (·.2)) (fields'.map (·.2))) :
    Alike (object fields) (object fields')
  | iterable (id : Nat) {vs ws : List Value} (items : List.Forall₂ Alike vs ws) :
    Alike (iterable id vs) (iterable id ws)
  | callable (id : Nat) : Alike (callable id) (callable id)

/-- Tables with the same keys in the same order, and values that are alike. -/
abbrev AlikeFields (fields fields' : Fields) : Prop :=
  Table.Rel (fun _ => Alike) fields fields'

theorem alikeFields_iff {fields fields' : Fields} :
    AlikeFields fields fields' ↔ fields.map (·.1) = fields'.map (·.1) ∧
      List.Forall₂ Alike (fields.map (·.2)) (fields'.map (·.2)) := by
  constructor
  · intro h
    induction h with
    | nil => exact ⟨rfl, .nil⟩
    | cons first _ ih => exact ⟨by simp [first.1, ih.1], .cons first.2 ih.2⟩
  · rintro ⟨keys, values⟩
    induction fields generalizing fields' with
    | nil =>
        cases fields' with
        | nil => exact .nil
        | cons => cases keys
    | cons e fields ih =>
        cases fields' with
        | nil => cases keys
        | cons e' fields' =>
            obtain ⟨key, keys⟩ := List.cons.inj keys
            cases values with
            | cons value values => exact .cons ⟨key, value⟩ (ih keys values)

theorem alike_object_iff {fields fields' : Fields} :
    Alike (object fields) (object fields') ↔ AlikeFields fields fields' := by
  rw [alikeFields_iff]
  constructor
  · intro h
    cases h with
    | object keys values => exact ⟨keys, values⟩
  · exact fun h => .object h.1 h.2

mutual

theorem Alike.refl : (v : Value) → Alike v v
  | .null => .null
  | .bool b => .bool b
  | .number n => .number n.same_refl rfl
  | .string s => .string s
  | .safe s => .safe s
  | .array items => .array (refls items)
  | .object fields => .object rfl (fieldsRefl fields)
  | .iterable id items => .iterable id (refls items)
  | .callable id => .callable id

theorem Alike.refls : (vs : List Value) → List.Forall₂ Alike vs vs
  | [] => .nil
  | v :: vs => .cons (refl v) (refls vs)

theorem Alike.fieldsRefl : (fields : List (String × Value)) →
    List.Forall₂ Alike (fields.map (·.2)) (fields.map (·.2))
  | [] => .nil
  | (_, v) :: fields => .cons (refl v) (fieldsRefl fields)

end

/-- A missing value is null. -/
theorem Alike.getD {v w : Option Value} (h : Option.Rel Alike v w) :
    Alike (v.getD .null) (w.getD .null) := by
  cases h with
  | none => exact .null
  | some h => exact h

/-! ### What a value shows -/

mutual

theorem Alike.text_eq : (v : Value) → ∀ {w}, Alike v w → v.text = w.text
  | .null, _, h => by cases h; rfl
  | .bool b, _, h => by cases h; rfl
  | .number n, _, h => by
      cases h with
      | number same text => simpa [Value.text] using text
  | .string s, _, h => by cases h; rfl
  | .safe s, _, h => by cases h; rfl
  | .array items, _, h => by
      cases h with
      | array items => simp only [Value.text, texts_eq _ items]
  | .object fields, _, h => by
      cases h
      rfl
  | .iterable id items, _, h => by
      cases h with
      | iterable id items => simp only [Value.text, texts_eq _ items]
  | .callable id, _, h => by cases h; rfl

theorem Alike.texts_eq : (vs : List Value) → ∀ {ws}, List.Forall₂ Alike vs ws → texts vs = texts ws
  | [], _, h => by cases h; rfl
  | v :: vs, _, h => by
      cases h with
      | cons first others => simp only [texts, text_eq v first, texts_eq vs others]

end

theorem Alike.output_eq {v w : Value} (h : Alike v w) (encoding : Encoding) :
    v.output encoding = w.output encoding := by
  have text := text_eq v h
  cases h with
  | safe s => rfl
  | _ => exact congrArg encoding.encode text

theorem Alike.isEmptyCollection_eq {v w : Value} (h : Alike v w) :
    v.isEmptyCollection = w.isEmptyCollection := by
  cases h with
  | array items => cases items <;> rfl
  | @object fields fields' keys values =>
      simp only [isEmptyCollection]
      cases fields <;> cases fields' <;> first | rfl | cases keys
  | _ => rfl

theorem Alike.isAbsent_eq {v w : Value} (h : Alike v w) : v.isAbsent = w.isAbsent := by
  have empty := h.isEmptyCollection_eq
  cases h <;> first | rfl | exact empty

theorem Alike.isTruthy_eq {v w : Value} (h : Alike v w) (includeZero : Bool) :
    v.isTruthy includeZero = w.isTruthy includeZero := by
  have empty := h.isEmptyCollection_eq
  cases h with
  | number same text => simp only [isTruthy, Number.isZero_of_same same]
  | array items => exact congrArg (!·) empty
  | object keys values => exact congrArg (!·) empty
  | _ => rfl

/-! ### Parts of a value -/

theorem forall₂_getElem? {vs ws : List Value} (h : List.Forall₂ Alike vs ws) (i : Nat) :
    Option.Rel Alike vs[i]? ws[i]? := by
  induction h generalizing i with
  | nil => exact .none
  | cons first _ ih =>
      cases i with
      | zero => exact .some first
      | succ i => exact ih i

theorem Alike.get? {v w : Value} (h : Alike v w) (key : String) :
    Option.Rel Alike (v.get? key) (w.get? key) := by
  cases h with
  | array items =>
      simp only [Value.get?, Option.bind_eq_bind]
      cases Numeral.count? key.toList with
      | none => exact .none
      | some i => exact forall₂_getElem? items i
  | object keys values => exact (alikeFields_iff.mpr ⟨keys, values⟩).get? key
  | _ => exact .none

theorem Alike.length?_eq {v w : Value} (h : Alike v w) : v.length? = w.length? := by
  cases h with
  | array items => exact congrArg some items.length_eq
  | _ => rfl

/-- Keys and items that are alike, one by one. -/
def AlikeEntries (entries entries' : List (Value × Value)) : Prop :=
  List.Forall₂ (fun e e' => Alike e.1 e'.1 ∧ Alike e.2 e'.2) entries entries'

theorem alikeEntries_keyedFrom {vs ws : List Value} (h : List.Forall₂ Alike vs ws) (i : Nat) :
    AlikeEntries (keyedFrom i vs) (keyedFrom i ws) := by
  induction h generalizing i with
  | nil => exact .nil
  | cons first _ ih => exact .cons ⟨.refl _, first⟩ (ih (i + 1))

theorem AlikeFields.entries {fields fields' : Fields} (h : AlikeFields fields fields') :
    AlikeEntries (fields.map fun (key, v) => (string key, v))
      (fields'.map fun (key, v) => (string key, v)) := by
  induction h with
  | nil => exact .nil
  | @cons e e' _ _ first _ ih =>
      have key : Alike (string e.1) (string e'.1) := first.1 ▸ .string e.1
      exact .cons ⟨key, first.2⟩ ih

theorem AlikeFields.isSparseFrom_eq {fields fields' : Fields} (h : AlikeFields fields fields')
    (i : Nat) : isSparseFrom i fields = isSparseFrom i fields' := by
  induction h generalizing i with
  | nil => rfl
  | @cons e e' _ _ first _ ih =>
      obtain ⟨key, v⟩ := e
      obtain ⟨key', v'⟩ := e'
      have same : key = key' := first.1
      simp only [isSparseFrom, same, ih]

/-! ### Equality -/

mutual

theorem Alike.same_left : (a : Value) → ∀ {a'}, Alike a a' → ∀ b, same a b = same a' b
  | .null, _, h, b => by cases h; rfl
  | .bool _, _, h, b => by cases h; rfl
  | .number n, _, h, b => by
      cases h with
      | number same text =>
          cases b <;> first | rfl | exact Number.same_left same _
  | .string s, _, h, b => by cases h; rfl
  | .safe s, _, h, b => by cases h; rfl
  | .array items, _, h, b => by
      cases h with
      | array items =>
          cases b <;> first | rfl | exact sameItems_left _ items _
  | .object fields, _, h, b => by
      cases h with
      | object keys values =>
          have length := congrArg List.length keys
          simp only [List.length_map] at length
          cases b <;> first | rfl | simp only [same, length, sameEntries_left fields keys values]
  | .iterable id items, _, h, b => by
      cases h with
      | iterable id items => cases b <;> rfl
  | .callable id, _, h, b => by cases h; rfl

theorem Alike.sameItems_left : (as : List Value) → ∀ {as'}, List.Forall₂ Alike as as' →
    ∀ bs, sameItems as bs = sameItems as' bs
  | [], _, h, bs => by cases h; rfl
  | a :: as, _, h, bs => by
      cases h with
      | cons first others =>
          cases bs with
          | nil => rfl
          | cons b bs => simp only [sameItems, same_left a first b, sameItems_left as others bs]

theorem Alike.sameEntries_left : (as : List (String × Value)) → ∀ {as' : Fields},
    as.map (·.1) = as'.map (·.1) → List.Forall₂ Alike (as.map (·.2)) (as'.map (·.2)) →
      ∀ bs, sameEntries as bs = sameEntries as' bs
  | [], as', keys, _, bs => by
      cases as' with
      | nil => rfl
      | cons => cases keys
  | (k, a) :: as, as', keys, values, bs => by
      cases as' with
      | nil => cases keys
      | cons e as' =>
          obtain ⟨k', a'⟩ := e
          obtain ⟨key, keys⟩ := List.cons.inj keys
          cases values with
          | cons first others =>
              have key : k = k' := key
              have first : Alike a a' := first
              simp only [sameEntries, key, sameEntries_left as keys others bs]
              cases Table.get? bs k' with
              | none => rfl
              | some b => simp only [same_left a first b]

theorem Alike.same_right : (a : Value) → ∀ {b b'}, Alike b b' → same a b = same a b'
  | .null, _, _, h => by cases h <;> rfl
  | .bool _, _, _, h => by cases h <;> rfl
  | .number n, _, _, h => by
      cases h with
      | number same text => exact Number.same_right n same
      | _ => rfl
  | .string s, _, _, h => by cases h <;> rfl
  | .safe s, _, _, h => by cases h <;> rfl
  | .array items, _, _, h => by
      cases h with
      | array others => exact sameItems_right items others
      | _ => rfl
  | .object fields, _, _, h => by
      cases h with
      | object keys values =>
          have length := congrArg List.length keys
          simp only [List.length_map] at length
          simp only [same, length, sameEntries_right fields (alikeFields_iff.mpr ⟨keys, values⟩)]
      | _ => rfl
  | .iterable id items, _, _, h => by cases h <;> rfl
  | .callable id, _, _, h => by cases h <;> rfl

theorem Alike.sameItems_right : (as : List Value) → ∀ {bs bs'}, List.Forall₂ Alike bs bs' →
    sameItems as bs = sameItems as bs'
  | [], _, _, h => by cases h <;> rfl
  | a :: as, _, _, h => by
      cases h with
      | nil => rfl
      | cons first others => simp only [sameItems, same_right a first, sameItems_right as others]

theorem Alike.sameEntries_right : (as : List (String × Value)) → ∀ {bs bs' : Fields},
    AlikeFields bs bs' → sameEntries as bs = sameEntries as bs'
  | [], _, _, _ => rfl
  | (k, a) :: as, bs, bs', h => by
      have found := h.get? k
      simp only [sameEntries, sameEntries_right as h]
      revert found
      generalize Table.get? bs k = b, Table.get? bs' k = b'
      rintro (first | _)
      · simp only [same_right a first]
      · rfl

end

/-- Equality does not tell values apart that are alike. -/
theorem Alike.same_eq {a a' b b' : Value} (h : Alike a a') (h' : Alike b b') :
    a.same b = a'.same b' :=
  (same_left a h b).trans (same_right a' h')

end Value

end Stencil
