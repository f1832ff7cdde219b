import Stencil.Expr.Parser
import Stencil.Value.Text

/-!
Writing what a tag says.

A term is an expression without the texts that it was read from, and a
phrase is a tag's content in such terms. Both are written down with one
blank between tokens, every name of a path and of an argument in brackets
and every string between double quotes. What is written names the
expression that it should be read as: the same term, with the written
tokens as sources.
-/

namespace Stencil.Writing

open Text

/-! ### Tokens -/

def bracket (name : String) : List Char :=
  '[' :: name.toList ++ [']']

/-- A backslash before every double quote and every backslash. -/
def escape : List Char → List Char
  | [] => []
  | c :: s => if c = '"' ∨ c = '\\' then '\\' :: c :: escape s else c :: escape s

def quote (s : String) : List Char :=
  '"' :: escape s.toList ++ ['"']

/-- Steps outwards before a text. -/
def outward : Nat → List Char → List Char
  | 0, s => s
  | n + 1, s => '.' :: '.' :: '/' :: outward n s

/-- Names in brackets with points between them. -/
def joined (names : List String) : List Char :=
  ['.'].intercalate (names.map bracket)

/-- The members of a path; where there are none, the context itself is named. -/
def members (names : List String) : List Char :=
  if names.isEmpty then ['t', 'h', 'i', 's'] else joined names

def path (special : Bool) (levels : Nat) (names : List String) : List Char :=
  if special then '@' :: outward levels (members names) else outward levels (members names)

def named (name : String) (value : List Char) : List Char :=
  bracket name ++ '=' :: value

/-- Tokens with a blank before each. -/
def spaced (ts : List (List Char)) : List Char :=
  ts.flatMap (' ' :: ·)

/-- The word `as` and block parameters between bars. -/
def bars (names : List String) : List Char :=
  'a' :: 's' :: ' ' :: '|' :: ([' '].intercalate (names.map String.toList) ++ ['|'])

theorem mem_of_mem_intercalate {c : Char} {sep : List Char} {ts : List (List Char)}
    (h : c ∈ sep.intercalate ts) : c ∈ sep ∨ ∃ t ∈ ts, c ∈ t := by
  induction ts with
  | nil => simp at h
  | cons t ts ih =>
      cases ts with
      | nil => exact .inr ⟨t, .head _, by simpa using h⟩
      | cons u ts =>
          rw [List.intercalate_cons_cons, List.mem_append, List.mem_append] at h
          grind

theorem joined_cons_cons (name next : String) (names : List String) :
    joined (name :: next :: names) = bracket name ++ '.' :: joined (next :: names) := by
  simp [joined]

theorem joined_start (name : String) (names : List String) :
    ∃ rest, joined (name :: names) = '[' :: rest := by
  cases names with
  | nil => exact ⟨_, rfl⟩
  | cons next names => exact ⟨_, joined_cons_cons name next names⟩

theorem members_start (names : List String) :
    members names = ['t', 'h', 'i', 's'] ∨ ∃ rest, members names = '[' :: rest := by
  cases names with
  | nil => exact .inl rfl
  | cons name names => exact .inr (joined_start name names)

theorem outward_start (levels : Nat) (names : List String) :
    outward levels (members names) = ['t', 'h', 'i', 's'] ∨
      ∃ c rest, outward levels (members names) = c :: rest ∧ (c = '.' ∨ c = '[') := by
  cases levels with
  | succ levels => exact .inr ⟨'.', _, rfl, .inl rfl⟩
  | zero =>
      refine (members_start names).imp id ?_
      rintro ⟨rest, start⟩
      exact ⟨'[', rest, start, .inr rfl⟩

/-- A path says `this` or begins with a character that begins no other token. -/
theorem path_start (special : Bool) (levels : Nat) (names : List String) :
    path special levels names = ['t', 'h', 'i', 's'] ∨
      ∃ c rest, path special levels names = c :: rest ∧ (c = '@' ∨ c = '.' ∨ c = '[') := by
  cases special with
  | true => exact .inr ⟨'@', _, rfl, .inl rfl⟩
  | false =>
      refine (outward_start levels names).imp id ?_
      rintro ⟨c, rest, start, first⟩
      exact ⟨c, rest, start, .inr first⟩

/-! ### Terms -/

/-- An expression that has not been written yet. -/
inductive Term
  | path (special : Bool) (levels : Nat) (names : List String)
  | integer (n : Int64)
  | string (s : String)
  | bool (b : Bool)
  | null
  | call (helper : String) (args : List Term) (hash : List (String × Term))

namespace Term

mutual

def text : Term → List Char
  | path special levels names => Writing.path special levels names
  | integer n => (Number.integer n.toInt).text.toList
  | string s => quote s
  | bool b => (Value.bool b).text.toList
  | null => "null".toList
  | call helper args hash => '(' :: helper.toList ++ spaced (texts args ++ namedTexts hash) ++ [')']

def texts : List Term → List (List Char)
  | [] => []
  | t :: ts => text t :: texts ts

def namedTexts : List (String × Term) → List (List Char)
  | [] => []
  | (name, t) :: hash => named name (text t) :: namedTexts hash

end

/-- The written token as a source. -/
def source (t : Term) : String :=
  String.ofList t.text

mutual

/-- What the term is to be read as. -/
def expr : Term → Expr
  | path special levels names =>
    .path { special, levels, segments := names, source := (path special levels names).source }
  | integer n => .literal (.number (.integer n.toInt)) (integer n).source
  | string s => .literal (.string s) (string s).source
  | bool b => .literal (.bool b) (bool b).source
  | null => .literal .null null.source
  | call helper args hash =>
    .call { callee := .helper helper, args := exprs args, hash := namedExprs hash }

def exprs : List Term → List Expr
  | [] => []
  | t :: ts => expr t :: exprs ts

def namedExprs : List (String × Term) → Table Expr
  | [] => []
  | (name, t) :: hash => (name, expr t) :: namedExprs hash

end

theorem mem_texts {text : List Char} {ts : List Term} (h : text ∈ texts ts) :
    ∃ t ∈ ts, t.text = text := by
  induction ts with
  | nil => simp [texts] at h
  | cons t ts ih => grind [texts]

theorem mem_namedTexts {text : List Char} {hash : List (String × Term)}
    (h : text ∈ namedTexts hash) : ∃ e ∈ hash, named e.1 e.2.text = text := by
  induction hash with
  | nil => simp [namedTexts] at h
  | cons e hash ih => grind [namedTexts]

end Term

/-! ### What can be written -/

/-- A name that needs no brackets. -/
def IsBare (name : String) : Prop :=
  name ≠ "" ∧ name.toList.all (! Path.isReserved ·)

/-- A name that fits between brackets, where nothing else ends it. -/
def FitsBrackets (name : String) : Prop :=
  ']' ∉ name.toList

/-- A name that fits between bars, among others. -/
def IsWord (name : String) : Prop :=
  name ≠ "" ∧ name.toList.all fun c => !isWhite c && c != '|'

instance (name : String) : Decidable (IsBare name) :=
  inferInstanceAs (Decidable (_ ∧ _))

instance (name : String) : Decidable (FitsBrackets name) :=
  inferInstanceAs (Decidable (¬ _))

instance (name : String) : Decidable (IsWord name) :=
  inferInstanceAs (Decidable (_ ∧ _))

theorem IsBare.not_isReserved {name : String} (h : IsBare name) {c : Char}
    (member : c ∈ name.toList) : Path.isReserved c = false := by
  simpa using List.all_eq_true.mp h.2 c member

theorem IsWord.not_isWhite {name : String} (h : IsWord name) {c : Char}
    (member : c ∈ name.toList) : isWhite c = false := by
  have := List.all_eq_true.mp h.2 c member
  simp_all

theorem IsWord.no_bar {name : String} (h : IsWord name) : '|' ∉ name.toList := fun member =>
  absurd (List.all_eq_true.mp h.2 _ member) (by decide)

/-- The names of a term's paths and arguments fit between brackets, no two arguments of a
call share a name, and every call names a helper. -/
inductive Term.IsLegible (isHelper : String → Bool) : Term → Prop
  | path {special : Bool} {levels : Nat} {names : List String}
      (names_fit : ∀ name ∈ names, FitsBrackets name) :
      IsLegible isHelper (.path special levels names)
  | integer (n : Int64) : IsLegible isHelper (.integer n)
  | string (s : String) : IsLegible isHelper (.string s)
  | bool (b : Bool) : IsLegible isHelper (.bool b)
  | null : IsLegible isHelper .null
  | call {helper : String} {args : List Term} {hash : List (String × Term)}
      (bare : IsBare helper) (known : isHelper helper = true)
      (args_legible : ∀ t ∈ args, IsLegible isHelper t)
      (names_fit : ∀ e ∈ hash, FitsBrackets e.1) (distinct : (Table.keys hash).Nodup)
      (hash_legible : ∀ e ∈ hash, IsLegible isHelper e.2) :
      IsLegible isHelper (.call helper args hash)

/-! ### Phrases -/

/-- The content of a tag that has not been written yet. -/
structure Phrase where
  head : String
  args : List Term := []
  hash : List (String × Term) := []
  /-- The names between bars, none when no bars are written. -/
  blockParams : Option (List String) := none

namespace Phrase

def text (p : Phrase) : List Char :=
  p.head.toList ++ spaced (Term.texts p.args ++ Term.namedTexts p.hash) ++
    (p.blockParams.elim [] fun names => ' ' :: bars names)

/-- What the phrase is to be read as. -/
def content (p : Phrase) : Content :=
  { head := p.head, params := Term.exprs p.args, hash := Term.namedExprs p.hash,
    blockParams := p.blockParams.getD [] }

/-- As for terms; the head is bare, and block parameters are words without bars. -/
structure IsLegible (isHelper : String → Bool) (p : Phrase) : Prop where
  bare : IsBare p.head
  args : ∀ t ∈ p.args, t.IsLegible isHelper
  names_fit : ∀ e ∈ p.hash, FitsBrackets e.1
  distinct : (Table.keys p.hash).Nodup
  hash : ∀ e ∈ p.hash, e.2.IsLegible isHelper
  params : ∀ names ∈ p.blockParams, ∀ name ∈ names, IsWord name

end Phrase

end Stencil.Writing
