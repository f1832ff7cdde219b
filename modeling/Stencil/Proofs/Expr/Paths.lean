import Stencil.Proofs.Expr.Writing

/-!
A written path is read as the path.

Three scanners go over a path, and each keeps its own account of brackets:
one looks for steps outwards among the members, one cuts the members
apart, and one takes the brackets off each. A bracket that is closed by the
first closing one behind it means the same to all of them.
-/

namespace Stencil.Path

open Writing

@[simp] theorem bracketed?_bracket (name : String) :
    bracketed? (bracket name) = some name.toList := by
  simp [bracketed?, bracket]

theorem segmentName?_bracket (name : String) : segmentName? (bracket name) = some name.toList := by
  simp [segmentName?]

/-! ### Steps -/

/-- What names the context, or a bracket, is no step. -/
theorem steps_members (levels : Nat) (names : List String) :
    steps levels (Writing.members names) = (levels, Writing.members names) := by
  obtain this | ⟨rest, start⟩ := members_start names
  · rw [this]
    rfl
  · rw [start]
    rfl

theorem steps_outward (n levels : Nat) (names : List String) :
    steps levels (outward n (Writing.members names)) = (levels + n, Writing.members names) := by
  induction n generalizing levels with
  | zero => exact steps_members levels names
  | succ n ih => rw [outward, steps, ih, Nat.add_right_comm, Nat.add_assoc]

/-! ### Members -/

theorem members_written (names : List String) :
    members (Writing.members names) = joined names := by
  cases names with
  | nil => rfl
  | cons name names =>
      obtain ⟨rest, start⟩ := joined_start name names
      simp [members, Writing.members, start]

theorem hasParentStep_inside {name : List Char} (h : ']' ∉ name) (last : Option Char)
    (rest : List Char) :
    hasParentStep true last (name ++ ']' :: rest) = hasParentStep false (some ']') rest := by
  induction name generalizing last with
  | nil => simp [hasParentStep]
  | cons c name ih =>
      simp only [List.mem_cons, not_or] at h
      simp [hasParentStep, Ne.symm h.1, ih h.2]

theorem hasParentStep_bracket {name : String} (h : FitsBrackets name) (last : Option Char)
    (rest : List Char) :
    hasParentStep false last (bracket name ++ rest) = hasParentStep false (some ']') rest := by
  simp [bracket, hasParentStep, hasParentStep_inside h]

/-- Points stand apart: each has brackets on both sides. -/
theorem hasParentStep_joined {names : List String} (h : ∀ name ∈ names, FitsBrackets name)
    (last : Option Char) : hasParentStep false last (joined names) = false := by
  induction names generalizing last with
  | nil => rfl
  | cons name names ih =>
      have fits := h name (.head _)
      cases names with
      | nil =>
          have := hasParentStep_bracket fits last []
          simp_all [joined, hasParentStep]
      | cons next names =>
          rw [joined_cons_cons, hasParentStep_bracket fits]
          simp [hasParentStep, ih fun n hn => h n (.tail _ hn)]

/-- The segment that is being read starts with what is read of it. -/
theorem splitFrom_start (inside : Bool) (name s : List Char) :
    ∃ tail others, splitFrom inside name s = (name.reverse ++ tail) :: others := by
  induction s generalizing inside name with
  | nil => exact ⟨[], [], by simp [splitFrom]⟩
  | cons c s ih =>
      have longer (inside : Bool) : ∃ tail others,
          splitFrom inside (c :: name) s = (name.reverse ++ tail) :: others := by
        obtain ⟨tail, others, parts⟩ := ih inside (c :: name)
        exact ⟨c :: tail, others, by simp [parts]⟩
      rw [splitFrom]
      split
      · exact longer true
      split
      · exact longer false
      split
      · exact ⟨[], _, by rw [List.append_nil]⟩
      · exact longer inside

theorem splitFrom_inside {name : List Char} (h : ']' ∉ name) {before : List Char}
    (begun : before ≠ []) (rest : List Char) :
    splitFrom true before (name ++ ']' :: rest) =
      splitFrom false (']' :: name.reverse ++ before) rest := by
  induction name generalizing before with
  | nil => simp [splitFrom]
  | cons c name ih =>
      simp only [List.mem_cons, not_or] at h
      simp [splitFrom, Ne.symm h.1, begun, ih h.2 (List.cons_ne_nil c before)]

theorem splitFrom_bracket {name : String} (h : FitsBrackets name) (rest : List Char) :
    splitFrom false [] (bracket name ++ rest) = splitFrom false (bracket name).reverse rest := by
  simp [bracket, splitFrom, splitFrom_inside h]

theorem splitFrom_joined {name : String} {names : List String}
    (h : ∀ n ∈ name :: names, FitsBrackets n) :
    splitFrom false [] (joined (name :: names)) = (name :: names).map bracket := by
  induction names generalizing name with
  | nil =>
      have := splitFrom_bracket (h name (.head _)) []
      simp_all [joined, splitFrom]
  | cons next names ih =>
      rw [joined_cons_cons, splitFrom_bracket (h name (.head _))]
      simp [splitFrom, ih fun n hn => h n (.tail _ hn)]

theorem split_joined {names : List String} (h : ∀ name ∈ names, FitsBrackets name) :
    split (joined names) = names.map bracket := by
  cases names with
  | nil => rfl
  | cons name names =>
      obtain ⟨rest, start⟩ := joined_start name names
      have filled : (joined (name :: names)).isEmpty = false := by rw [start]; rfl
      rw [split, filled, if_neg Bool.false_ne_true, splitFrom_joined h]

theorem segmentNames_written (names : List String) :
    (names.map bracket).mapM segmentName? = some (names.map String.toList) := by
  induction names with
  | nil => rfl
  | cons name names ih => simp [segmentName?_bracket, ih]

/-! ### Whole paths -/

theorem parse_written {names : List String} (h : ∀ name ∈ names, FitsBrackets name)
    (special : Bool) (levels : Nat) (site : Site) :
    parse (Writing.path special levels names) site =
      .ok { special, levels, segments := names,
            source := String.ofList (Writing.path special levels names) } := by
  have noStep := hasParentStep_joined h none
  have segments : (names.map String.toList).map String.ofList = names := by
    simp [Function.comp_def]
  cases special with
  | true =>
      simp only [Writing.path, if_true, parse, steps_outward, members_written, noStep,
        split_joined h, segmentNames_written, segments, Nat.zero_add, Bool.false_eq_true, if_false]
  | false =>
      -- the first match asks whether the mark of special variables comes first
      have unmarked (body : List Char) : outward levels (Writing.members names) ≠ '@' :: body := by
        intro marked
        obtain this | ⟨c, rest, start, first⟩ := outward_start levels names
        · cases this.symm.trans marked
        · cases start.symm.trans marked
          simp at first
      simp only [Writing.path, Bool.false_eq_true, if_false, parse, steps_outward,
        members_written, noStep, split_joined h, segmentNames_written, segments, Nat.zero_add]

end Stencil.Path
