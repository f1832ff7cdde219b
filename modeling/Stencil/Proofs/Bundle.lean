import Stencil.Bundle.Basic

/-!
The names of functions.

A bundle has one function for each template file of a folder. Its name holds the words of the
template name, joined by underscores, and nothing else of it: neither where an upper case letter
began a word nor which character stood between two. So functions have one name exactly if their
templates have the same words.
-/

namespace Stencil.Bundle

open Text

/-! ### Characters -/

theorem lower_le_lowerIn {runs : List CaseRun} {c n : Nat} (h : lowerIn runs c = some n) :
    ∃ run ∈ runs, run.lower ≤ n := by
  induction runs with
  | nil => cases h
  | cons run runs ih =>
      rw [lowerIn] at h
      split at h
      · cases h
      · split at h
        · obtain rfl := Option.some.inj h
          exact ⟨run, List.mem_cons_self, Nat.le_add_right _ _⟩
        · obtain ⟨other, member, le⟩ := ih h
          exact ⟨other, List.mem_cons_of_mem _ member, le⟩

theorem underscore_lt_lower : ∀ run ∈ caseRuns, '_'.toNat < run.lower := by
  decide +kernel

theorem ofNat_ne_underscore {n : Nat} (h : '_'.toNat < n) : Char.ofNat n ≠ '_' := by
  by_cases valid : n.isValidChar
  · rw [Char.ofNat, dif_pos valid]
    intro same
    have code : n = '_'.toNat := congrArg Char.toNat same
    omega
  · rw [Char.ofNat, dif_neg valid]
    decide

theorem underscore_not_mem_lowercase {c : Char} (h : isUpper c = true) : '_' ∉ lowercase c := by
  obtain ⟨n, lower⟩ := Option.isSome_iff_exists.mp h
  obtain ⟨run, member, le⟩ := lower_le_lowerIn lower
  have above := ofNat_ne_underscore (Nat.lt_of_lt_of_le (underscore_lt_lower run member) le)
  rw [lowercase, lower]
  simp only
  split
  · decide
  · exact fun inside => above (List.mem_singleton.mp inside).symm

theorem ne_underscore_of_isAlphanumeric {c : Char} (h : isAlphanumeric c = true) : c ≠ '_' := by
  rintro rfl
  exact absurd h (by decide)

/-! ### Words -/

/-- The words of what follows `word`. -/
def wordsFrom (word : List Char) : List Char → List (List Char)
  | [] => [word]
  | c :: name =>
    if isUpper c then word :: wordsFrom (lowercase c) name
    else if isAlphanumeric c then wordsFrom (word ++ [c]) name
    else word :: wordsFrom [] name

/-- The words of a name, in lower case. A word ends at a character that is neither a letter nor a
number, which is in no word, and before an upper case letter. -/
def wordsOf : List Char → List (List Char)
  | [] => [[]]
  | c :: name => if isUpper c then wordsFrom (lowercase c) name else wordsFrom [] (c :: name)

def nameWords (name : String) : List (List Char) :=
  wordsOf name.toList

theorem wordsFrom_ne_nil (word name : List Char) : wordsFrom word name ≠ [] := by
  induction name generalizing word with
  | nil => exact List.cons_ne_nil _ _
  | cons c name ih =>
      rw [wordsFrom]
      split
      · exact List.cons_ne_nil _ _
      · split
        · exact ih _
        · exact List.cons_ne_nil _ _

theorem intercalate_cons_wordsFrom (s : List Char) (first word name : List Char) :
    s.intercalate (first :: wordsFrom word name) =
      first ++ s ++ s.intercalate (wordsFrom word name) := by
  cases words : wordsFrom word name with
  | nil => exact absurd words (wordsFrom_ne_nil word name)
  | cons w ws => rw [List.intercalate_cons_cons]

/-- The name of a function holds the words, joined by underscores. -/
theorem intercalate_wordsFrom (word name : List Char) :
    ['_'].intercalate (wordsFrom word name) = word ++ name.flatMap (snakeChar false) := by
  induction name generalizing word with
  | nil => simp [wordsFrom]
  | cons c name ih =>
      rw [wordsFrom, List.flatMap_cons, snakeChar]
      split
      · rw [intercalate_cons_wordsFrom, ih]
        simp
      · split
        · rw [ih]
          simp
        · rw [intercalate_cons_wordsFrom, ih]
          simp

theorem snakeCase_eq (name : List Char) : snakeCase name = ['_'].intercalate (wordsOf name) := by
  cases name with
  | nil => rfl
  | cons c name =>
      rw [snakeCase, wordsOf, snakeChar]
      split
      · rw [intercalate_wordsFrom, if_pos rfl]
      · next lower =>
        rw [intercalate_wordsFrom, List.nil_append, List.flatMap_cons, snakeChar, if_neg lower]

theorem underscore_not_mem_wordsFrom {word : List Char} (h : '_' ∉ word) (name : List Char) :
    ∀ w ∈ wordsFrom word name, '_' ∉ w := by
  induction name generalizing word with
  | nil => exact List.forall_mem_singleton.mpr h
  | cons c name ih =>
      rw [wordsFrom]
      split
      · next upper =>
        exact List.forall_mem_cons.mpr ⟨h, ih (underscore_not_mem_lowercase upper)⟩
      · split
        · next letter =>
          refine ih ?_
          have other := ne_underscore_of_isAlphanumeric letter
          simp [h, Ne.symm other]
        · exact List.forall_mem_cons.mpr ⟨h, ih List.not_mem_nil⟩

theorem underscore_not_mem_wordsOf (name : List Char) : ∀ w ∈ wordsOf name, '_' ∉ w := by
  cases name with
  | nil => exact List.forall_mem_singleton.mpr List.not_mem_nil
  | cons c name =>
      rw [wordsOf]
      split
      · next upper => exact underscore_not_mem_wordsFrom (underscore_not_mem_lowercase upper) name
      · exact underscore_not_mem_wordsFrom List.not_mem_nil _

theorem wordsOf_ne_nil (name : List Char) : wordsOf name ≠ [] := by
  cases name with
  | nil => exact List.cons_ne_nil _ _
  | cons c name =>
      rw [wordsOf]
      split <;> exact wordsFrom_ne_nil _ _

/-- No word holds an underscore, so the words can be read off the name of a function. -/
theorem splitOn_snakeCase (name : List Char) : (snakeCase name).splitOn '_' = wordsOf name := by
  rw [snakeCase_eq, List.splitOn_intercalate '_' (underscore_not_mem_wordsOf name)
    (wordsOf_ne_nil name)]

theorem functionName_eq_iff {a b : String} :
    functionName a = functionName b ↔ nameWords a = nameWords b := by
  rw [functionName, functionName, String.ofList_inj, nameWords, nameWords]
  constructor
  · intro same
    rw [← splitOn_snakeCase, same, splitOn_snakeCase]
  · intro same
    rw [snakeCase_eq, same, snakeCase_eq]

/-! ### Plain names -/

/-- Nothing stands in the name but letters and numbers, none in upper case, and one character
between words. -/
def IsPlain (separator : Char) (name : String) : Prop :=
  ∀ c ∈ name.toList, c = separator ∨ isAlphanumeric c = true ∧ isUpper c = false

instance (separator : Char) (name : String) : Decidable (IsPlain separator name) :=
  List.decidableBAll _ name.toList

section

variable {separator : Char} (mark : isAlphanumeric separator = false)
  (lower : isUpper separator = false)

include mark lower

theorem intercalate_wordsFrom_of_plain {word name : List Char}
    (plain : ∀ c ∈ name, c = separator ∨ isAlphanumeric c = true ∧ isUpper c = false) :
    [separator].intercalate (wordsFrom word name) = word ++ name := by
  induction name generalizing word with
  | nil => simp [wordsFrom]
  | cons c name ih =>
      obtain ⟨here, others⟩ := List.forall_mem_cons.mp plain
      rw [wordsFrom]
      rcases here with rfl | ⟨letter, small⟩
      · simp only [lower, mark, Bool.false_eq_true, if_false]
        rw [intercalate_cons_wordsFrom, ih others]
        simp
      · simp only [letter, small, Bool.false_eq_true, if_false, if_true]
        rw [ih others]
        simp

theorem intercalate_nameWords_of_plain {name : String} (plain : IsPlain separator name) :
    [separator].intercalate (nameWords name) = name.toList := by
  rw [nameWords]
  cases chars : name.toList with
  | nil => rfl
  | cons c rest =>
      rw [IsPlain, chars] at plain
      have small : isUpper c = false := by
        rcases plain c List.mem_cons_self with rfl | ⟨-, small⟩
        · exact lower
        · exact small
      rw [wordsOf, if_neg (by simp [small]), intercalate_wordsFrom_of_plain mark lower plain,
        List.nil_append]

theorem nameWords_injective_of_plain {a b : String} (ha : IsPlain separator a)
    (hb : IsPlain separator b) (same : nameWords a = nameWords b) : a = b := by
  rw [← String.toList_inj, ← intercalate_nameWords_of_plain mark lower ha, same,
    intercalate_nameWords_of_plain mark lower hb]

end

/-! ### Folders -/

/-- The names of the template files of a folder, in the order of a walk. -/
def templateNames (entries : Entries) : List String :=
  (Tree.filesOf entries).filterMap fun e => templateName? e.1

/-- What is read has the property; what cannot be read is reported. -/
def Reads {α : Type} (P : α → Prop) : Except Bundle α → Prop
  | .ok a => P a
  | .error bundle => bundle.messages ≠ []

theorem Reads.bind {α β : Type} {P : α → Prop} {Q : β → Prop} {read : Except Bundle α}
    {more : α → Except Bundle β} (h : Reads P read) (next : ∀ a, P a → Reads Q (more a)) :
    Reads Q (read >>= more) := by
  cases read with
  | error bundle => exact h
  | ok a => exact next a h

theorem readSource_reads (name file : String) (bytes : ByteArray) :
    Reads (fun source => source.name = name) (readSource name file bytes) := by
  rw [readSource]
  split
  · exact rfl
  · exact List.cons_ne_nil _ _

/-- A folder is read to one template for each template file. -/
theorem readFolder_reads (folder : String) (files : List (List String × ByteArray)) :
    Reads (fun sources => sources.map (·.name) = files.filterMap fun e => templateName? e.1)
      (readFolder folder files) := by
  induction files with
  | nil => exact rfl
  | cons e files ih =>
      rw [readFolder, List.filterMap_cons]
      split
      · next none =>
        simp only [none]
        exact ih
      · next name found =>
        simp only [found]
        refine (readSource_reads name _ _).bind fun source named => ih.bind fun others names => ?_
        change (source :: others).map (·.name) = name :: _
        rw [List.map_cons, named, names]

theorem function?_name {source : Source} {f : Function} (made : function? source = some f) :
    f.name = functionName source.name := by
  simp only [function?] at made
  split at made
  · cases made
    rfl
  · cases made

theorem mapM_function?_names {sources : List Source} {functions : List Function}
    (made : sources.mapM function? = some functions) :
    functions.map (·.name) = sources.map fun s => functionName s.name := by
  induction sources generalizing functions with
  | nil =>
      cases made
      rfl
  | cons source sources ih =>
      rw [List.mapM_cons] at made
      obtain ⟨f, first, made⟩ := Option.bind_eq_some_iff.mp made
      obtain ⟨others, rest, made⟩ := Option.bind_eq_some_iff.mp made
      cases made
      rw [List.map_cons, List.map_cons, ih rest, function?_name first]

/-- Templates that are in order are made functions of. -/
theorem expand_names {sources partials : List Source} {bundle : Bundle}
    (made : expand sources partials = some bundle) (accepted : bundle.messages = []) :
    bundle.functions.map (·.name) = sources.map fun s => functionName s.name := by
  rw [expand] at made
  split at made
  · obtain ⟨functions, each, rfl⟩ := Option.map_eq_some_iff.mp made
    exact mapM_function?_names each
  · next wrong =>
    cases made
    exact absurd accepted wrong

/-- A folder that is accepted is one, and a function is made for each of its template files. -/
theorem ofFolder_names {root : Option String} {tree : Tree} {path : String} {bundle : Bundle}
    (made : ofFolder root tree path = some bundle) (accepted : bundle.messages = []) :
    ∃ entries, tree.find? (steps path) = some (.folder entries) ∧
      bundle.functions.map (·.name) = (templateNames entries).map functionName := by
  rw [ofFolder] at made
  cases root with
  | none =>
      cases made
      exact absurd accepted (List.cons_ne_nil _ _)
  | some root =>
      simp only [locate] at made
      split at made
      · next entries found =>
        refine ⟨entries, found, ?_⟩
        have reads := readFolder_reads (join root path) (Tree.filesOf entries)
        cases read : readFolder (join root path) (Tree.filesOf entries) with
        | error failed =>
            rw [read] at made reads
            cases made
            exact absurd accepted reads
        | ok sources =>
            rw [read] at made reads
            obtain ⟨expanded, each, rfl⟩ := Option.map_eq_some_iff.mp made
            rw [expand_names each accepted, templateNames, ← reads, List.map_map]
            rfl
      · cases made
        exact absurd accepted (List.cons_ne_nil _ _)

/-! ### Distinct names -/

/-- A folder that is accepted gives one function for each template file, named after it. The names
of two functions are the same exactly if the template names have the same words, so they are
pairwise distinct if and only if no two templates have the same words. In particular they are if
each template has its own name, without upper case letters, and with at most one character in it
that is neither a letter nor a number, however often it occurs. -/
theorem function_names_distinct_iff {root : Option String} {tree : Tree} {path : String}
    {bundle : Bundle} (made : ofFolder root tree path = some bundle)
    (accepted : bundle.messages = []) :
    ∃ entries, tree.find? (steps path) = some (.folder entries) ∧
      bundle.functions.map (·.name) = (templateNames entries).map functionName ∧
      ((bundle.functions.map (·.name)).Nodup ↔
        (templateNames entries).Pairwise fun a b => nameWords a ≠ nameWords b) ∧
      ∀ separator, isAlphanumeric separator = false → isUpper separator = false →
        (∀ name ∈ templateNames entries, IsPlain separator name) →
          (templateNames entries).Nodup → (bundle.functions.map (·.name)).Nodup := by
  obtain ⟨entries, found, names⟩ := ofFolder_names made accepted
  have distinct : (bundle.functions.map (·.name)).Nodup ↔
      (templateNames entries).Pairwise fun a b => nameWords a ≠ nameWords b := by
    rw [names, List.Nodup, List.pairwise_map]
    simp only [ne_eq, functionName_eq_iff]
  refine ⟨entries, found, names, distinct, fun separator mark lower plain own => ?_⟩
  refine distinct.mpr (own.imp_of_mem fun ha hb other same => other ?_)
  exact nameWords_injective_of_plain mark lower (plain _ ha) (plain _ hb) same

/-- A folder with the templates `card` and `user/card`. -/
def cards : Tree :=
  .folder [("t", .folder [("card.hbs", .file ByteArray.empty),
    ("user", .folder [("card.hbs", .file ByteArray.empty)])])]

theorem cards_distinct :
    ∃ bundle, ofFolder (some "") cards "t" = some bundle ∧ bundle.messages = [] ∧
      bundle.functions.map (·.name) = ["card", "user_card"] ∧
        (bundle.functions.map (·.name)).Nodup := by
  have run : ((ofFolder (some "") cards "t").any fun bundle => bundle.messages.isEmpty &&
      bundle.functions.map (·.name) == ["card", "user_card"]) = true := by
    decide +kernel
  obtain ⟨bundle, made, outcome⟩ := (Option.any_eq_true _ _).mp run
  obtain ⟨accepted, names⟩ := Bool.and_eq_true_iff.mp outcome
  have accepted := List.isEmpty_iff.mp accepted
  obtain ⟨entries, found, -, -, plain⟩ := function_names_distinct_iff made accepted
  obtain rfl : entries = _ := by
    injection found.symm.trans (rfl : cards.find? ["t"] = some (.folder _)) with same
    injection same
  exact ⟨bundle, made, accepted, beq_iff_eq.mp names, plain '/' (by decide) (by decide +kernel)
    (by decide +kernel) (by decide +kernel)⟩

/-- A template in a folder and one whose name holds that of the folder. -/
def userCards : Tree :=
  .folder [("t", .folder [("user", .folder [("card.hbs", .file ByteArray.empty)]),
    ("user_card.hbs", .file ByteArray.empty)])]

/-- Both templates are accepted, and both functions are `user_card`. -/
theorem function_names_collide :
    ¬∀ root tree path bundle, ofFolder root tree path = some bundle → bundle.messages = [] →
      (bundle.functions.map (·.name)).Nodup := by
  intro distinct
  have run : ((ofFolder (some "") userCards "t").any fun bundle => bundle.messages.isEmpty &&
      bundle.functions.map (·.name) == ["user_card", "user_card"]) = true := by
    decide +kernel
  obtain ⟨bundle, made, outcome⟩ := (Option.any_eq_true _ _).mp run
  obtain ⟨accepted, names⟩ := Bool.and_eq_true_iff.mp outcome
  have nodup := distinct _ _ _ bundle made (List.isEmpty_iff.mp accepted)
  rw [beq_iff_eq.mp names] at nodup
  exact absurd nodup (by decide)

end Stencil.Bundle
