import Mathlib.Data.List.Induction
import Stencil.Proofs.Encoding
import Stencil.Proofs.Expr.Numerals
import Stencil.Proofs.Render.Iterations
import Stencil.Proofs.Render.Sections

/-!
What `@index` and `@key` print.

The keys of a list are its positions, so there the two print the same. The keys of a map may spell
their positions, each its own, and then `@index` is the position; otherwise it is the key. But the
reader of counts takes more than the numeral of a position for it: a plus sign may come first, and
zeros before the digits. A map whose keys all spell their positions, and some of them in such a way,
is walked with positions that are not written like the keys.
-/

namespace Stencil

/-! ### Counts -/

namespace Numeral

/-- A text spells a count: its digits, with a plus sign and zeros in front at most. -/
def Spells (n : Nat) (text : List Char) : Prop :=
  n < UInt64.size ∧ ∃ sign ∈ [[], ['+']], ∃ zeros,
    text = sign ++ (List.replicate zeros '0' ++ Nat.toDigits 10 n)

theorem digitValue_lt {c : Char} (h : isDigit c = true) : digitValue c < 10 := by
  simp only [isDigit, Bool.and_eq_true, decide_eq_true_eq] at h
  obtain ⟨-, most⟩ := h
  have most : c.toNat ≤ '9'.toNat := most
  have zero : '0'.toNat = 48 := rfl
  have nine : '9'.toNat = 57 := rfl
  simp only [digitValue]
  omega

theorem digitChar_digitValue {c : Char} (h : isDigit c = true) :
    Nat.digitChar (digitValue c) = c := by
  refine Char.toNat_inj.mp ?_
  rw [Nat.toNat_digitChar_of_lt_ten (digitValue_lt h)]
  simp only [isDigit, Bool.and_eq_true, decide_eq_true_eq] at h
  have least : '0'.toNat ≤ c.toNat := h.1
  have zero : '0'.toNat = 48 := rfl
  simp only [digitValue]
  omega

theorem value_concat (ds : List Char) (c : Char) :
    value (ds ++ [c]) = 10 * value ds + digitValue c := by
  simp [value, valueFrom]

/-- Digits are those of the number that they write, behind zeros. By induction on the digits from
the last one on. -/
theorem eq_zeros_toDigits {ds : List Char} (filled : ds ≠ [])
    (digits : ∀ c ∈ ds, isDigit c = true) :
    ∃ zeros, ds = List.replicate zeros '0' ++ Nat.toDigits 10 (value ds) := by
  induction ds using List.reverseRecOn with
  | nil => exact absurd rfl filled
  | append_singleton ds c ih =>
      have last := digits c (by simp)
      have alone : Nat.toDigits 10 (digitValue c) = [c] := by
        rw [Nat.toDigits_of_lt_base (digitValue_lt last), digitChar_digitValue last]
      rw [value_concat]
      by_cases first : ds = []
      · subst first
        exact ⟨0, by simp [value, valueFrom] at alone ⊢; exact alone.symm⟩
      · obtain ⟨zeros, front⟩ := ih first fun d member => digits d (by simp [member])
        cases number : value ds with
        | zero =>
            rw [number, Nat.toDigits_zero] at front
            refine ⟨zeros + 1, ?_⟩
            rw [Nat.mul_zero, Nat.zero_add, alone, front, List.replicate_succ']
        | succ n =>
            refine ⟨zeros, ?_⟩
            rw [← number,
              ← Nat.toDigits_append_toDigits (by decide) (by omega) (digitValue_lt last), alone,
              ← List.append_assoc, ← front]

theorem value_zeros_toDigits (zeros n : Nat) :
    value (List.replicate zeros '0' ++ Nat.toDigits 10 n) = n := by
  calc
    _ = Nat.ofDigitChars 10 (List.replicate zeros '0' ++ Nat.toDigits 10 n) 0 :=
      Nat.ofDigitChars_eq_foldl.symm
    _ = n := by
      rw [Nat.ofDigitChars_append, Nat.ofDigitChars_replicate_zero, Nat.mul_zero,
        Nat.ofDigitChars_ten_toDigits]

theorem isDigit_of_mem_zeros {c : Char} {zeros n : Nat}
    (h : c ∈ List.replicate zeros '0' ++ Nat.toDigits 10 n) : isDigit c = true := by
  obtain zero | digit := List.mem_append.mp h
  · rw [List.eq_of_mem_replicate zero]
    decide
  · exact isDigit_of_mem_toDigits digit

/-- A text is read as a count just when it spells it. -/
theorem count?_eq_some_iff {text : List Char} {n : Nat} : count? text = some n ↔ Spells n text := by
  have digits (ds : List Char) : (if ds.isEmpty || !ds.all isDigit then none
      else if value ds < UInt64.size then some (value ds) else none) = some n ↔
        n < UInt64.size ∧ ∃ zeros, ds = List.replicate zeros '0' ++ Nat.toDigits 10 n := by
    constructor
    · intro read
      split at read
      · cases read
      · next written =>
        split at read
        · next fits =>
          cases read
          simp only [Bool.or_eq_true, Bool.not_eq_true', not_or, Bool.not_eq_true,
            List.isEmpty_eq_false_iff, Bool.not_eq_false, List.all_eq_true] at written
          exact ⟨fits, eq_zeros_toDigits written.1 written.2⟩
        · cases read
    · rintro ⟨fits, zeros, rfl⟩
      have filled : (List.replicate zeros '0' ++ Nat.toDigits 10 n).isEmpty = false := by
        simp [Nat.toDigits_ne_nil]
      have all : (List.replicate zeros '0' ++ Nat.toDigits 10 n).all isDigit = true :=
        List.all_eq_true.mpr fun _ => isDigit_of_mem_zeros
      rw [value_zeros_toDigits, filled, all, if_pos fits]
      rfl
  unfold count? Spells
  split
  · next ds =>
    refine (digits ds).trans (and_congr_right fun _ => ⟨?_, ?_⟩)
    · rintro ⟨zeros, rfl⟩
      exact ⟨['+'], by simp, zeros, rfl⟩
    · rintro ⟨sign, either, zeros, written⟩
      obtain rfl | rfl : sign = [] ∨ sign = ['+'] := by simpa using either
      · have plus : isDigit '+' = true := isDigit_of_mem_zeros (written ▸ List.mem_cons_self)
        exact absurd plus (by decide)
      · exact ⟨zeros, (List.cons.inj written).2⟩
  · next unsigned =>
    refine (digits text).trans (and_congr_right fun _ => ⟨?_, ?_⟩)
    · rintro ⟨zeros, rfl⟩
      exact ⟨[], by simp, zeros, rfl⟩
    · rintro ⟨sign, either, zeros, rfl⟩
      obtain rfl | rfl : sign = [] ∨ sign = ['+'] := by simpa using either
      · exact ⟨zeros, rfl⟩
      · exact absurd rfl (unsigned _)

end Numeral

/-! ### Keys -/

namespace Value

theorem isSparseFrom_eq_false_iff {fields : Fields} {start : Nat} :
    isSparseFrom start fields = false ↔
      ∀ (i : Nat) (key : String) (item : Value), fields[i]? = some (key, item) →
        Numeral.Spells (start + i) key.toList := by
  induction fields generalizing start with
  | nil => simp [isSparseFrom]
  | cons field fields ih =>
      obtain ⟨key, item⟩ := field
      simp only [isSparseFrom, Bool.or_eq_false_iff, bne_eq_false_iff_eq, ih,
        Numeral.count?_eq_some_iff]
      constructor
      · rintro ⟨first, later⟩ i key' item' found
        cases i with
        | zero => cases found; exact first
        | succ i =>
            have spelled := later i key' item' found
            rwa [Nat.add_right_comm, Nat.add_assoc] at spelled
      · intro all
        refine ⟨all 0 key item rfl, fun i key' item' found => ?_⟩
        have spelled := all (i + 1) key' item' found
        rwa [Nat.add_right_comm, Nat.add_assoc]

/-- The keys by which a value is walked spell the positions: those of a list are the positions. -/
def Positional : Value → Prop
  | object fields => ∀ (i : Nat) (key : String) (item : Value), fields[i]? = some (key, item) →
      Numeral.Spells i key.toList
  | _ => True

theorem positional_iff {subject : Value} {sparse : Bool} {entries : List (Value × Value)}
    (walked : subject.walk? true = some (sparse, entries)) :
    subject.Positional ↔ sparse = false := by
  cases subject with
  | array items =>
      cases walked
      exact iff_of_true trivial rfl
  | iterable id items =>
      cases walked
      exact iff_of_true trivial rfl
  | object fields =>
      cases walked
      rw [isSparse, isSparseFrom_eq_false_iff]
      simp only [Positional, Nat.zero_add]
  | _ => cases walked

/-- A key is a text where a map is walked, and the position where anything else is. -/
theorem key_of_walk {subject key item : Value} {sparse : Bool} {entries : List (Value × Value)}
    {i : Nat} (walked : subject.walk? true = some (sparse, entries))
    (here : entries[i]? = some (key, item)) :
    (∃ fields name, subject = object fields ∧ key = string name) ∨
      (∀ fields, subject ≠ object fields) ∧ key = ofNat i := by
  have numbered (items : List Value)
      (here : (items.zipIdx.map fun e => (ofNat e.2, e.1))[i]? = some (key, item)) :
      key = ofNat i := by
    rw [List.getElem?_map, List.getElem?_zipIdx] at here
    cases found : items[i]? with
    | none => simp [found] at here
    | some v =>
        simp only [found, Option.map_some, Option.some.injEq, Prod.mk.injEq, Nat.zero_add] at here
        exact here.1.symm
  cases subject with
  | array items =>
      cases walked
      exact .inr ⟨fun _ same => Value.noConfusion same, numbered items here⟩
  | iterable id items =>
      cases walked
      exact .inr ⟨fun _ same => Value.noConfusion same, numbered items here⟩
  | object fields =>
      cases walked
      change (fields.map fun e => (string e.1, e.2))[i]? = _ at here
      rw [List.getElem?_map] at here
      obtain ⟨⟨name, v⟩, -, same⟩ := Option.map_eq_some_iff.mp here
      cases same
      exact .inl ⟨fields, name, rfl, rfl⟩
  | _ => cases walked

theorem text_ofNat (n : Nat) : (ofNat n).text = toString n := by
  rw [ofNat, text, Number.text]
  rfl

end Value

/-! ### What is printed -/

/-- An interpolation of the special variable prints a text, encoded. -/
def Scene.Prints (scene : Scene) (encoding : Encoding) (name : String) (m : Machine)
    (text : String) : Prop :=
  ∃ p, (∀ site, Path.parse ('@' :: name.toList) site = .ok p) ∧
    ∀ enter?, (scene.renderNode enter? (.lookup (.path p) encoding)).run.run m =
      (.ok (encoding.encode text), m)

namespace Scene

variable {scene : Scene} {encoding : Encoding} {m : Machine}

theorem Prints.unique {name text text' : String} (h : scene.Prints encoding name m text)
    (h' : scene.Prints encoding name m text') : text = text' := by
  obtain ⟨p, parsed, shown⟩ := h
  obtain ⟨q, parsed', shown'⟩ := h'
  have same : p = q := Except.ok.inj ((parsed ⟨"", 1⟩).symm.trans (parsed' ⟨"", 1⟩))
  subst same
  have alike := (shown none).symm.trans (shown' none)
  have encoded : encoding.encode text = encoding.encode text' :=
    Except.ok.inj (congrArg Prod.fst alike)
  rw [← encoding.decode_encode text, encoded, encoding.decode_encode]

/-- A path is shown as the text of what it resolves to, where that is no function and is not
encoded already. -/
theorem run_lookup {p : Path} {v : Value} (resolved : scene.resolve? m p = some v)
    (plain : (∃ s, v = .string s) ∨ ∃ n, v = .ofNat n) (enter? : Option (Plan → Eval String)) :
    (scene.renderNode enter? (.lookup (.path p) encoding)).run.run m =
      (.ok (encoding.encode v.text), m) := by
  have found : (scene.lookup (.path p)).run.run m = (.ok v, m) := by
    rw [lookup, Eval.run_get_bind, resolved]
    obtain ⟨s, rfl⟩ | ⟨n, rfl⟩ := plain <;> rfl
  rw [renderNode, Eval.run_bind, found]
  obtain ⟨s, rfl⟩ | ⟨n, rfl⟩ := plain <;> rfl

/-- A special variable of the innermost frame is printed. -/
theorem prints_of_frame {vars : Fields} {frames : List Fields} {name : String} {v : Value}
    (named : name ∈ Iteration.names) (inside : m.env.frames = vars :: frames)
    (set : Table.get? vars name = some v)
    (plain : (∃ s, v = .string s) ∨ ∃ n, v = .ofNat n) : scene.Prints encoding name m v.text := by
  refine ⟨_, fun site => Path.parse_specialPath 0 named site, run_lookup ?_ plain⟩
  have other : name ≠ "root" := by
    rintro rfl
    revert named
    decide
  simp [resolve?, start?, other, Env.special?, inside, set, members?]

/-- What a step of an iteration prints for the two variables. -/
theorem prints_in_step (encoding : Encoding) {key item : Value} {i count : Nat} (sparse : Bool)
    (names : List String) (plain : (∃ s, key = .string s) ∨ ∃ n, key = .ofNat n) (m : Machine) :
    let step := iterationStep true sparse count ((key, item), i)
    let inside : Machine := { m with env := step.env names m, context := item }
    scene.Prints encoding "key" inside key.text ∧
      scene.Prints encoding "index" inside (if sparse then key.text else toString i) := by
  intro step inside
  have framed : inside.env.frames =
      [("first", .bool (i = 0)), ("last", .bool (i + 1 = count)),
        ("index", if sparse then key else .ofNat i), ("key", key)] :: m.env.frames :=
    Env.frames_bind _ _ _
  refine ⟨prints_of_frame (by decide) framed (by simp [Table.get?]) plain, ?_⟩
  cases sparse with
  | true => exact prints_of_frame (by decide) framed (by simp [Table.get?]) plain
  | false =>
      have position : scene.Prints encoding "index" inside (Value.ofNat i).text :=
        prints_of_frame (by decide) framed (by simp [Table.get?]) (.inr ⟨i, rfl⟩)
      rwa [Value.text_ofNat] at position

end Scene

/-- In an iteration the body is rendered once for each entry, in order, with the item as context.
There `@key` prints the key, and `@index` prints the position if the keys spell the positions and
the key otherwise. So the two print the same for every entry of a list or an iterable, and for those
of a map unless all its keys spell their positions and this one is not written as the numeral of its
position. -/
theorem Scene.positions_printed (scene : Scene) (levels : Nat) (names : List String) (body : Plan)
    (inverse : Option Plan) (encoding : Encoding) {subject : Value} {sparse : Bool}
    {entries : List (Value × Value)} (filled : subject.isEmptyCollection = false)
    (walked : subject.walk? true = some (sparse, entries)) :
    let steps := iteration true sparse entries
    (∀ m, (renderSection true names subject (scene.renderPlan levels body)
        (inverse.map (scene.renderPlan levels))).run.run m =
      (performed (Branches.ofPlans scene levels names body inverse) steps).run.run m) ∧
    steps.length = entries.length ∧
    ∀ (i : Nat) (key item : Value), entries[i]? = some (key, item) →
      ∃ step, steps[i]? = some step ∧ step.branch = .body ∧ step.context = some item ∧
        ((∀ fields, subject ≠ .object fields) → key.text = toString i) ∧
        ∀ m : Machine,
          let inside : Machine := { m with env := step.env names m, context := item }
          scene.Prints encoding "key" inside key.text ∧
          (subject.Positional → scene.Prints encoding "index" inside (toString i)) ∧
          (¬ subject.Positional → scene.Prints encoding "index" inside key.text) ∧
          ((∃ text, scene.Prints encoding "index" inside text ∧
              scene.Prints encoding "key" inside text) ↔
            (subject.Positional → key.text = toString i)) := by
  intro steps
  have restores (plan : Plan) := (scene.rendering_restores levels).plan plan
  have performs (m : Machine) := renderSection_performed
    (b := .ofPlans scene levels names body inverse) (restores body) rfl
    (fun branch found => by
      obtain ⟨plan, -, rfl⟩ := Option.map_eq_some_iff.mp found
      exact restores plan)
    true subject m
  simp only [obeyed_walk filled walked] at performs
  refine ⟨performs, by simp [steps, iteration], fun i key item here => ?_⟩
  have kinds := Value.key_of_walk walked here
  have plain : (∃ s, key = .string s) ∨ ∃ n, key = .ofNat n := by
    obtain ⟨fields, name, -, rfl⟩ | ⟨-, rfl⟩ := kinds
    · exact .inl ⟨name, rfl⟩
    · exact .inr ⟨i, rfl⟩
  have step : steps[i]? = some (iterationStep true sparse entries.length ((key, item), i)) := by
    simp [steps, iteration, List.getElem?_zipIdx, here]
  refine ⟨_, step, rfl, rfl, fun noMap => ?_, fun m => ?_⟩
  · obtain ⟨fields, name, map, -⟩ | ⟨-, rfl⟩ := kinds
    · exact absurd map (noMap fields)
    · exact Value.text_ofNat i
  · intro inside
    obtain ⟨byKey, byIndex⟩ := scene.prints_in_step encoding sparse names plain m
    have positional := Value.positional_iff walked
    cases sparse with
    | true =>
        have never : ¬ subject.Positional := by simp [positional]
        refine ⟨byKey, fun all => absurd all never, fun _ => byIndex, ?_⟩
        exact iff_of_true ⟨_, byIndex, byKey⟩ fun all => absurd all never
    | false =>
        have always : subject.Positional := positional.mpr rfl
        refine ⟨byKey, fun _ => byIndex, fun other => absurd always other, ?_⟩
        constructor
        · rintro ⟨text, index, key⟩ -
          exact (byKey.unique key).trans (index.unique byIndex)
        · intro same
          exact ⟨_, byIndex, same always ▸ byKey⟩

/-- A map whose second key has a sign. -/
theorem signedKey_printed :
    let subject : Value := .object [("0", .string "a"), ("+1", .string "b")]
    let entries : List (Value × Value) :=
      [(.string "0", .string "a"), (.string "+1", .string "b")]
    subject.isEmptyCollection = false ∧ subject.walk? true = some (false, entries) ∧
      ∃ step, (iteration true false entries)[1]? = some step ∧
        ∀ (scene : Scene) (m : Machine),
          let inside : Machine := { m with env := step.env [] m, context := .string "b" }
          scene.Prints .html "index" inside "1" ∧ scene.Prints .html "key" inside "+1" := by
  intro subject entries
  have filled : subject.isEmptyCollection = false := rfl
  have walked : subject.walk? true = some (false, entries) := by
    have spelled : Value.isSparse [("0", .string "a"), ("+1", .string "b")] = false := by
      decide +kernel
    simp [subject, entries, Value.walk?, spelled]
  refine ⟨filled, walked, _, rfl, fun scene m => ?_⟩
  obtain ⟨-, -, entry⟩ := scene.positions_printed 0 [] [] none .html filled walked
  obtain ⟨step, here, -, -, -, prints⟩ := entry 1 (.string "+1") (.string "b") rfl
  cases here
  obtain ⟨byKey, position, -, -⟩ := prints m
  exact ⟨position ((Value.positional_iff walked).mpr rfl), byKey⟩

/-- Each entry with the two variables. -/
def positions : String :=
  "\x7b\x7b#each m\x7d\x7d\x7b\x7b@index\x7d\x7d=\x7b\x7b@key\x7d\x7d;\x7b\x7b/each\x7d\x7d"

/-- The second key is not the numeral of its position, and `@index` prints the numeral all the
same. -/
theorem signedKey_misses :
    let data : Value := .object [("m", .object [("0", .string "a"), ("+1", .string "b")])]
    ["0", "+1"] ≠ (List.range 2).map toString ∧
      ∃ t, (Registry.builtin.compile {} positions).result = .ok t ∧
        (t.render { data, functions := fun _ _ => .done .null }).result = .ok "0=0;1=+1;" := by
  intro data
  have run : ((Registry.builtin.compile {} positions).result.toOption.any fun t =>
      (t.render { data, functions := fun _ _ => .done .null }).result.toOption ==
        some "0=0;1=+1;") = true := by decide +kernel
  obtain ⟨t, compiled, rendered⟩ := (Option.any_eq_true _ _).mp run
  exact ⟨by decide, t, eq_ok_of_toOption compiled, eq_ok_of_toOption (beq_iff_eq.mp rendered)⟩

end Stencil
