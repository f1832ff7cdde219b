import Stencil.Proofs.Expr.Numerals
import Stencil.Proofs.Expr.Paths
import Stencil.Proofs.Expr.Tokens
import Stencil.Proofs.Table

/-!
What is written is read back.

Each token of a written tag is looked at by itself: as a named argument, as
a literal, as a call, as a path. Every kind of term begins with a character
of its own, so only the reader that is meant for it takes it. The induction
over terms then needs nothing but that: the tokens of a call are those that
were written, and each is read as its term.
-/

namespace Stencil

/-- The computation succeeds with this result and reports neither an error nor a
warning. -/
def Reading.Yields {α : Type} (action : Reading α) (a : α) : Prop :=
  ∀ r, ∃ r', action.run.run r = (.ok a, r') ∧ r'.errors = r.errors ∧ r'.warnings = r.warnings

namespace Reading.Yields

variable {α β : Type}

theorem pure (a : α) : Yields (Pure.pure a) a :=
  fun r => ⟨r, rfl, rfl, rfl⟩

theorem bind {x : Reading α} {f : α → Reading β} {a : α} {b : β} (h : Yields x a)
    (next : Yields (f a) b) : Yields (x >>= f) b := by
  intro r
  obtain ⟨r', ran, errors, warnings⟩ := h r
  obtain ⟨r'', ran', errors', warnings'⟩ := next r'
  refine ⟨r'', ?_, errors'.trans errors, warnings'.trans warnings⟩
  change (ExceptT.bindCont f (x.run.run r).1).run (x.run.run r).2 = _
  rw [ran]
  exact ran'

theorem count (f : Usage → Usage) : Yields (Reading.count f) () :=
  fun r => ⟨r.count f, rfl, rfl, rfl⟩

theorem ofExcept {x : Except Diagnostic α} {a : α} (h : x = .ok a) :
    Yields (liftM x : Reading α) a := by
  subst h
  exact fun r => ⟨r, rfl, rfl, rfl⟩

end Reading.Yields

namespace Expr

open Text Token Writing
open Reading (Yields)

/-! ### Literals -/

theorem unescape_escape (s : List Char) : unescape '"' (escape s) = s := by
  induction s with
  | nil => rfl
  | cons c s ih =>
      rw [escape]
      split
      · next special => simp [unescape, special, ih]
      · next special =>
        obtain ⟨-, backslash⟩ := not_or.mp special
        rw [unescape.eq_def]
        split <;> simp_all

theorem unquote?_quote (s : String) : unquote? (quote s) = some s.toList := by
  simp [unquote?, quote, isQuote, unescape_escape]

theorem literal?_quote (s : String) : literal? (quote s) = some (.string s) := by
  have noNumeral : Numeral.read? (quote s) = none :=
    Numeral.read?_eq_none (by decide) (by decide) _
  rw [literal?, noNumeral, unquote?_quote]
  simp

/-- A token is no literal when it begins like a path or a call. -/
theorem literal?_eq_none {c : Char} (h : c = '(' ∨ c = '@' ∨ c = '.' ∨ c = '[')
    (rest : List Char) : literal? (c :: rest) = none := by
  have other : Numeral.isDigit c = false ∧ c ≠ '-' ∧ isQuote c = false ∧
      c ≠ 't' ∧ c ≠ 'f' ∧ c ≠ 'n' ∧ c ≠ 'u' := by
    rcases h with rfl | rfl | rfl | rfl <;> decide
  obtain ⟨digit, minus, noQuote, t, f, n, u⟩ := other
  simp [literal?, Numeral.read?_eq_none digit minus, unquote?, noQuote, t, f, n, u]

theorem literal?_path (special : Bool) (levels : Nat) (names : List String) :
    literal? (Writing.path special levels names) = none := by
  obtain this | ⟨c, rest, start, first⟩ := path_start special levels names
  · rw [this]
    decide
  · rw [start]
    exact literal?_eq_none (.inr first) rest

/-! ### Named arguments -/

/-- Characters that neither name an argument nor rule a name out. -/
theorem cutNamed_plain (text : List Char) (plain : text.all isPlain = true)
    (equals : '=' ∉ text) (before rest : List Char) :
    cutNamed false before (text ++ rest) = cutNamed false (text.reverse ++ before) rest := by
  induction text generalizing before with
  | nil => rfl
  | cons c text ih =>
      rw [List.all_cons, Bool.and_eq_true] at plain
      simp only [List.mem_cons, not_or] at equals
      have later := ih plain.2 equals.2 (c :: before)
      have first := plain.1
      simp only [isPlain, Bool.not_eq_eq_eq_not, Bool.not_true, Bool.or_eq_false_iff,
        beq_eq_false_iff_ne] at first
      simp_all [cutNamed, Ne.symm equals.1]

theorem cutNamed_inside {name : List Char} (h : ']' ∉ name) (before rest : List Char) :
    cutNamed true before (name ++ ']' :: rest) =
      cutNamed false (']' :: name.reverse ++ before) rest := by
  induction name generalizing before with
  | nil => simp [cutNamed]
  | cons c name ih =>
      simp only [List.mem_cons, not_or] at h
      simp [cutNamed, Ne.symm h.1, ih h.2]

theorem cutNamed_bracket {name : String} (h : FitsBrackets name) (before rest : List Char) :
    cutNamed false before (bracket name ++ rest) =
      cutNamed false ((bracket name).reverse ++ before) rest := by
  simp [bracket, cutNamed, cutNamed_inside h]

/-- The equals sign behind the bracket is the first that counts. -/
theorem named?_named {name : String} (h : FitsBrackets name) (value : List Char) :
    named? (named name value) = some (name.toList, value) := by
  have cut : cutNamed false [] (named name value) = some (bracket name, value) := by
    rw [named, cutNamed_bracket h]
    simp [cutNamed, bracket]
  have text : named name value = '[' :: (name.toList ++ ']' :: '=' :: value) := by
    simp [named, bracket]
  rw [text] at cut ⊢
  simp [named?, isQuote, cut]

theorem named?_eq_none_of_cutNamed {token : List Char} (h : cutNamed false [] token = none) :
    named? token = none := by
  rw [named?.eq_def]
  split
  · rfl
  · split
    · rfl
    · simp [h]

theorem named?_eq_none_of_plain {token : List Char} (plain : token.all isPlain = true)
    (equals : '=' ∉ token) : named? token = none := by
  refine named?_eq_none_of_cutNamed ?_
  rw [← List.append_nil token, cutNamed_plain token plain equals, cutNamed]

theorem cutNamed_joined {names : List String} (h : ∀ name ∈ names, FitsBrackets name)
    (before : List Char) : cutNamed false before (joined names) = none := by
  induction names generalizing before with
  | nil => rfl
  | cons name names ih =>
      have fits := h name (.head _)
      cases names with
      | nil =>
          have := cutNamed_bracket fits before []
          simp_all [joined, cutNamed]
      | cons next names =>
          have point := cutNamed_plain ['.'] (by decide) (by decide)
          rw [joined_cons_cons, cutNamed_bracket fits, ← List.singleton_append, point]
          exact ih (fun n hn => h n (.tail _ hn)) _

theorem cutNamed_outward {names : List String} (h : ∀ name ∈ names, FitsBrackets name)
    (levels : Nat) (before : List Char) :
    cutNamed false before (outward levels (members names)) = none := by
  -- steps outwards are plain, so only the members could show an equals sign
  induction levels generalizing before with
  | zero =>
      cases names with
      | nil =>
          have := cutNamed_plain (members []) (by decide) (by decide) before []
          simpa [outward, cutNamed] using this
      | cons name names => exact cutNamed_joined h before
  | succ levels ih =>
      have step := cutNamed_plain ['.', '.', '/'] (by decide) (by decide) before
      exact (step _).trans (ih _)

theorem named?_path {names : List String} (h : ∀ name ∈ names, FitsBrackets name)
    (special : Bool) (levels : Nat) : named? (Writing.path special levels names) = none := by
  refine named?_eq_none_of_cutNamed ?_
  cases special with
  | true =>
      have mark := cutNamed_plain ['@'] (by decide) (by decide) []
      exact (mark _).trans (cutNamed_outward h levels _)
  | false => exact cutNamed_outward h levels []

/-- No term looks like a named argument. -/
theorem named?_text {isHelper : String → Bool} {t : Term} (h : t.IsLegible isHelper) :
    named? t.text = none := by
  cases h with
  | path names_fit => exact named?_path names_fit _ _
  | integer n =>
      refine named?_eq_none_of_plain (isPlain_integer _) fun member => ?_
      exact absurd (Numeral.digits_of_mem_text member) (by decide)
  | string s => rfl
  | bool b => cases b <;> exact named?_eq_none_of_plain (by decide) (by decide)
  | null => exact named?_eq_none_of_plain (by decide) (by decide)
  | call => rfl

/-! ### Reading tokens -/

section

variable {isHelper : String → Bool} {site : Site}

theorem yields_literal {token : List Char} {value : Literal} (h : literal? token = some value) :
    Yields (read isHelper site token) (.literal value (String.ofList token)) := by
  rw [read, h]
  exact .pure _

/-- A token that is neither a literal nor a call is read as a path. -/
theorem yields_parsed {token : List Char} {p : Path} (noLiteral : literal? token = none)
    (noCall : parenthesized? token = none) (parsed : Path.parse token site = .ok p) :
    Yields (read isHelper site token) (.path p) := by
  rw [read, noLiteral]
  simp only
  split
  · exact .bind (.bind (.ofExcept parsed) (.bind (.count _) (.pure _))) (.pure _)
  · next inner found => simp [noCall] at found

theorem yields_path {names : List String} (h : ∀ name ∈ names, FitsBrackets name)
    (special : Bool) (levels : Nat) :
    Yields (read isHelper site (Writing.path special levels names))
      (Term.path special levels names).expr := by
  have noCall : parenthesized? (Writing.path special levels names) = none := by
    obtain this | ⟨c, rest, start, first⟩ := path_start special levels names
    · rw [this]
      rfl
    · have apart : c ≠ '(' := by
        rintro rfl
        simp at first
      rw [start]
      simp [parenthesized?, apart]
  exact yields_parsed (literal?_path special levels names) noCall
    (Path.parse_written h special levels site)

/-- Reading a token in parentheses, when its tokens and arguments are known. -/
theorem yields_call {head : String} {inner : List Char} {ts : List (List Char)}
    {args : List Expr} {hash : Table Expr} (known : isHelper head = true)
    (found : tokens [] inner = .ok (head.toList :: ts, []))
    (arguments : Yields (readArguments isHelper site [] ts) (args, hash)) :
    Yields (read isHelper site ('(' :: inner ++ [')']))
      (.call { callee := .helper head, args, hash }) := by
  have within : parenthesized? ('(' :: inner ++ [')']) = some inner := by
    simp [parenthesized?]
  have noLiteral : literal? ('(' :: inner ++ [')']) = none :=
    literal?_eq_none (.inl rfl) _
  rw [read, noLiteral]
  simp only
  split
  · next other => exact absurd (within.symm.trans other) (by simp)
  · next inner' other =>
      obtain rfl : inner = inner' := Option.some.inj (within.symm.trans other)
      -- of the outcomes of cutting the inside into tokens, `found` leaves a head with others
      split
      · next other => simp [found] at other
      · next other => simp [found] at other
      · next head' rest params other =>
        rw [found] at other
        cases other
        refine .bind arguments (.bind (.count _) (.bind ?_ (.pure _)))
        simp only [callee, String.ofList_toList, known, if_true]
        exact .bind (.count _) (.pure _)

theorem yields_arguments_cons {token : List Char} {ts : List (List Char)} {arg : Expr}
    {hash : Table Expr} {args : List Expr} {hash' : Table Expr} (positional : named? token = none)
    (first : Yields (read isHelper site token) arg)
    (rest : Yields (readArguments isHelper site hash ts) (args, hash')) :
    Yields (readArguments isHelper site hash (token :: ts)) (arg :: args, hash') := by
  rw [readArguments]
  split
  · next found => simp [positional] at found
  · exact .bind first (.bind rest (.pure _))

/-- A new name comes last, and no warning is due. -/
theorem yields_arguments_named {name : String} (fits : FitsBrackets name) {value : List Char}
    {ts : List (List Char)} {e : Expr} {hash : Table Expr} {result : List Expr × Table Expr}
    (new : name ∉ Table.keys hash) (first : Yields (read isHelper site value) e)
    (rest : Yields (readArguments isHelper site (hash ++ [(name, e)]) ts) result) :
    Yields (readArguments isHelper site hash (named name value :: ts)) result := by
  have unseen : Table.get? hash name = none := by
    simpa [Table.mem_keys_iff] using new
  rw [readArguments]
  split
  · next name' value' found =>
    rw [named?_named fits] at found
    cases found
    refine .bind first ?_
    simp only [String.ofList_toList, Table.contains, unseen, Option.isSome_none,
      Bool.false_eq_true, if_false, Table.insert_of_new unseen]
    exact rest
  · next found => simp [named?_named fits] at found

theorem yields_namedTexts {hash : List (String × Term)}
    (names_fit : ∀ e ∈ hash, FitsBrackets e.1)
    (values : ∀ e ∈ hash, Yields (read isHelper site e.2.text) e.2.expr) {before : Table Expr}
    (distinct : (Table.keys before ++ Table.keys hash).Nodup) :
    Yields (readArguments isHelper site before (Term.namedTexts hash))
      ([], before ++ Term.namedExprs hash) := by
  induction hash generalizing before with
  | nil =>
      rw [Term.namedTexts, readArguments, Term.namedExprs, List.append_nil]
      exact .pure _
  | cons e hash ih =>
      obtain ⟨name, t⟩ := e
      -- the name moves from the arguments to come to those that were read
      have keys : Table.keys (before ++ [(name, t.expr)]) ++ Table.keys hash =
          Table.keys before ++ Table.keys ((name, t) :: hash) := by
        simp [Table.keys]
      have new : name ∉ Table.keys before := fun old =>
        (List.nodup_append.mp distinct).2.2 name old name (.head _) rfl
      have later := ih (fun e he => names_fit e (.tail _ he)) (fun e he => values e (.tail _ he))
        (keys ▸ distinct)
      rw [List.append_assoc] at later
      exact yields_arguments_named (names_fit _ (.head _)) new (values _ (.head _)) later

/-- Arguments are read in the order in which they are written. -/
theorem yields_arguments {args : List Term} {hash : List (String × Term)}
    (positional : ∀ t ∈ args, named? t.text = none ∧ Yields (read isHelper site t.text) t.expr)
    (names_fit : ∀ e ∈ hash, FitsBrackets e.1) (distinct : (Table.keys hash).Nodup)
    (values : ∀ e ∈ hash, Yields (read isHelper site e.2.text) e.2.expr) :
    Yields (readArguments isHelper site [] (Term.texts args ++ Term.namedTexts hash))
      (Term.exprs args, Term.namedExprs hash) := by
  induction args with
  | nil => exact yields_namedTexts names_fit values distinct
  | cons t args ih =>
      obtain ⟨noName, first⟩ := positional t (.head _)
      exact yields_arguments_cons noName first (ih fun u hu => positional u (.tail _ hu))

/-- The tokens of written arguments behind a head. -/
theorem tokens_written {head : String} {args : List Term} {hash : List (String × Term)}
    (bare : IsBare head) (args_legible : ∀ t ∈ args, t.IsLegible isHelper)
    (names_fit : ∀ e ∈ hash, FitsBrackets e.1) (hash_legible : ∀ e ∈ hash, e.2.IsLegible isHelper)
    {tail : List Char} (apart : Separates tail) :
    tokens [] (head.toList ++ spaced (Term.texts args ++ Term.namedTexts hash) ++ tail) =
      (tokens [] (trimStart tail)).map fun (ts, params) =>
        (head.toList :: (Term.texts args ++ Term.namedTexts hash) ++ ts, params) := by
  refine tokens_spaced (IsToken.bare bare).isComplete (fun u hu => IsToken.isPart ?_) apart []
  obtain arg | entry := List.mem_append.mp hu
  · obtain ⟨t, member, rfl⟩ := Term.mem_texts arg
    exact .text (args_legible t member)
  · obtain ⟨e, member, rfl⟩ := Term.mem_namedTexts entry
    exact .named (names_fit e member) (.text (hash_legible e member))

/-- A legible term reads back from its text, by induction on what makes it legible: the
arguments of a call are read as their terms, and its tokens are theirs. -/
theorem yields_text {t : Term} (h : t.IsLegible isHelper) :
    Yields (read isHelper site t.text) t.expr := by
  induction h with
  | path names_fit => exact yields_path names_fit _ _
  | integer n =>
      refine yields_literal ?_
      simp [literal?, Term.text, Numeral.read?_text]
  | string s => exact yields_literal (literal?_quote s)
  | bool b => cases b <;> exact yields_literal (by decide)
  | null => exact yields_literal (by decide)
  | @call helper args hash bare known args_legible names_fit distinct hash_legible ihArgs ihHash =>
      -- nothing stands between the last argument and the parenthesis
      have written := tokens_written bare args_legible names_fit hash_legible .nil
      refine yields_call known ?_ <| yields_arguments
        (fun t ht => ⟨named?_text (args_legible t ht), ihArgs t ht⟩) names_fit distinct ihHash
      simpa [trimStart, tokens_nil, Except.map] using written

end

end Expr

namespace Writing.Phrase

open Text Expr

theorem trimStart_bars (names : List String) : trimStart (' ' :: bars names) = bars names :=
  rfl

theorem separates_bars (names : List String) : Separates (' ' :: bars names) := by
  refine ⟨rfl, fun tail bar => ?_⟩
  rw [trimStart_bars] at bar
  exact absurd (List.cons.inj bar).1 (by decide)

theorem tokens_text {isHelper : String → Bool} {p : Phrase} (h : p.IsLegible isHelper) :
    tokens [] p.text =
      .ok (p.head.toList :: (Term.texts p.args ++ Term.namedTexts p.hash),
        p.blockParams.getD []) := by
  rw [text]
  cases params : p.blockParams with
  | none =>
      rw [Option.elim_none, tokens_written h.bare h.args h.names_fit h.hash .nil]
      simp [trimStart, tokens_nil, Except.map]
  | some names =>
      rw [Option.elim_some,
        tokens_written h.bare h.args h.names_fit h.hash (separates_bars names), trimStart_bars,
        tokens_bars (h.params names params)]
      simp [Except.map]

/-- What a legible phrase says is read back from its text, and nothing is reported. -/
theorem yields_content {isHelper : String → Bool} {p : Phrase} (h : p.IsLegible isHelper)
    (site : Site) : (Content.read isHelper site p.text).Yields p.content := by
  have arguments : Reading.Yields (readArguments isHelper site [] _) _ :=
    yields_arguments (fun t ht => ⟨named?_text (h.args t ht), yields_text (h.args t ht)⟩)
      h.names_fit h.distinct fun e he => yields_text (h.hash e he)
  rw [Content.read, tokens_text h]
  refine .bind arguments ?_
  simp only [String.ofList_toList]
  split
  · exact .bind (.count _) (.pure _)
  · exact .pure _

/-- Every kind of term, with blanks, quotes, brackets and parentheses where each of them
could be mistaken. -/
def mixed : Phrase where
  head := "list"
  args := [
    .path false 1 ["a b", "(c=", "\"["], .path true 0 ["root"],
    .call "pick" [.string "say \"no\" \\", .integer (-5)] [("x = y", .call "pick" [.null] [])]]
  hash := [("sep", .string ") ] |"), ("as", .path false 0 []), ("", .bool true)]
  blockParams := some ["item", "i"]

theorem mixed_isLegible : mixed.IsLegible (· == "pick") where
  bare := by decide
  args := List.forall_mem_cons.mpr ⟨.path (by decide),
    List.forall_mem_cons.mpr ⟨.path (by decide), List.forall_mem_singleton.mpr <|
      .call (by decide) rfl
        (List.forall_mem_cons.mpr ⟨.string _, List.forall_mem_singleton.mpr (.integer _)⟩)
        (by decide) (by decide)
        (List.forall_mem_singleton.mpr <|
          .call (by decide) rfl (List.forall_mem_singleton.mpr .null) nofun .nil nofun)⟩⟩
  names_fit := by decide
  distinct := by decide
  hash := List.forall_mem_cons.mpr ⟨.string _,
    List.forall_mem_cons.mpr ⟨.path nofun, List.forall_mem_singleton.mpr (.bool _)⟩⟩
  params := by decide

/-- The phrase is legible and reads back. -/
theorem mixed_yields_content : mixed.IsLegible (· == "pick") ∧
    (Content.read (· == "pick") ⟨"list", 1⟩ mixed.text).Yields mixed.content :=
  ⟨mixed_isLegible, yields_content mixed_isLegible _⟩

/-- A name that does not fit between brackets: the bracket closes early. -/
def unfit : Phrase where
  head := "list"
  hash := [("a] b", .integer 1)]

theorem unfit_misread :
    IsBare unfit.head ∧ (Table.keys unfit.hash).Nodup ∧
      (∀ e ∈ unfit.hash, e.2.IsLegible fun _ => false) ∧
      ¬ (Content.read (fun _ => false) ⟨"list", 1⟩ unfit.text).Yields unfit.content := by
  refine ⟨by decide, by decide, List.forall_mem_singleton.mpr (.integer _), fun h => ?_⟩
  obtain ⟨r, ran, -⟩ := h {}
  have found : ((Content.read (fun _ => false) ⟨"list", 1⟩ unfit.text).run.run {}).1.toOption.map
      (fun content => Table.keys content.hash) = some ["b]"] := by
    decide +kernel
  rw [ran] at found
  change some ["a] b"] = some ["b]"] at found
  exact absurd found (by decide)

end Writing.Phrase

end Stencil
