import Stencil.Expr.Path
import Stencil.Expr.Token

/-!
Reading expressions.

A tag's content is cut into tokens, and each token is read by itself: as a
literal, as a call when parentheses surround it, or as a path. A token
inside parentheses is shorter than they are, which is why reading ends.
Whether a name is a registered helper decides what a call invokes, and is
asked of the caller.
-/

namespace Stencil.Expr

open Text

/-! ### Tokens and block parameters -/

/-- The names between bars at the front, and the text behind them; none when no
bar stands there. -/
def blockParams? : List Char → Except Construct (Option (List String × List Char))
  | '|' :: rest =>
    match cut? ['|'] rest with
    | none => .error .blockParams
    | some (names, tail) => .ok (some ((words names).map String.ofList, trimStart tail))
  | _ => .ok none

theorem length_of_blockParams? {text rest : List Char} {names : List String}
    (h : blockParams? text = .ok (some (names, rest))) : rest.length ≤ text.length := by
  unfold blockParams? at h
  split at h
  · split at h
    · simp at h
    · next found =>
      simp only [Except.ok.injEq, Option.some.injEq, Prod.mk.injEq] at h
      obtain ⟨_, rfl⟩ := h
      have cut := length_le_of_cut? found
      have trimmed := Token.length_trimStart_le
      grind
  · simp at h

/-- The block parameters behind a token, which must be `as`. -/
def paramsAfter? (token rest : List Char) :
    Except Construct (Option (List String × List Char)) :=
  if token = ['a', 's'] then blockParams? rest else .ok none

theorem length_of_paramsAfter? {token text rest : List Char} {names : List String}
    (h : paramsAfter? token text = .ok (some (names, rest))) : rest.length ≤ text.length := by
  rw [paramsAfter?] at h
  split at h
  · exact length_of_blockParams? h
  · simp at h

/-- The tokens of a content, without the block parameters that follow the
token `as`; the last list of block parameters counts. -/
def tokens (params : List String) (text : List Char) :
    Except Construct (List (List Char) × List String) :=
  match h : Token.next? text with
  | .error k => .error k
  | .ok none => .ok ([], params)
  | .ok (some (token, rest)) =>
    match hp : paramsAfter? token rest with
    | .error k => .error k
    | .ok (some (names, tail)) => tokens names tail
    | .ok none => (tokens params rest).map fun (ts, params) => (token :: ts, params)
termination_by text.length
decreasing_by
  · have token := Token.length_of_next? h
    have tail := length_of_paramsAfter? hp
    have := List.length_pos_iff.2 token.1
    omega
  · have token := Token.length_of_next? h
    have := List.length_pos_iff.2 token.1
    omega

/-- The room that a list of tokens takes in a text: each token and something that
separates it from the next. -/
def room : List (List Char) → Nat
  | [] => 0
  | t :: ts => t.length + 1 + room ts

@[simp] theorem room_nil : room [] = 0 := rfl

@[simp] theorem room_cons (t : List Char) (ts : List (List Char)) :
    room (t :: ts) = t.length + 1 + room ts := rfl

theorem tokens_nil (params : List String) : tokens params [] = .ok ([], params) := by
  rw [tokens]
  split <;> simp_all [Token.next?, trimStart]

/-- The tokens of a text fit into it; only the last needs no separation. -/
theorem room_of_tokens {params names : List String} {text : List Char} {ts : List (List Char)}
    (h : tokens params text = .ok (ts, names)) : room ts ≤ text.length + 1 := by
  fun_induction tokens params text generalizing ts names with
  | case1 => simp at h
  | case2 =>
    simp only [Except.ok.injEq, Prod.mk.injEq] at h
    simp [← h.1]
  | case3 => simp at h
  | case4 params text token rest hn names' tail hp ih =>
    have := ih h
    have := Token.length_of_next? hn
    have := length_of_paramsAfter? hp
    omega
  | case5 params text token rest hn _ ih =>
    cases found : tokens params rest with
    | error k => simp [found, Except.map] at h
    | ok parts =>
      obtain ⟨ts', params'⟩ := parts
      simp only [found, Except.map, Except.ok.injEq, Prod.mk.injEq] at h
      have le := ih found
      obtain ⟨_, fits, apart⟩ := Token.length_of_next? hn
      rw [← h.1, room_cons]
      by_cases last : rest = []
      · subst last
        simp only [tokens_nil, Except.ok.injEq, Prod.mk.injEq] at found
        simp only [← found.1, room_nil]
        omega
      · have := apart last
        omega

/-! ### Single tokens -/

/-- The text of a quoted body: a backslash keeps a quote or a backslash that
follows it, and stands for itself before anything else. -/
def unescape (quote : Char) : List Char → List Char
  | [] => []
  | ['\\'] => ['\\']
  | '\\' :: c :: rest =>
    if c = quote || c = '\\' then c :: unescape quote rest else '\\' :: c :: unescape quote rest
  | c :: rest => c :: unescape quote rest

/-- The text that a token writes between quotes, if quotes surround it. -/
def unquote? (token : List Char) : Option (List Char) :=
  match token with
  | quote :: rest =>
    if Token.isQuote quote && rest.getLast? == some quote then
      some (unescape quote rest.dropLast)
    else none
  | [] => none

/-- The literal that a token writes, if it writes one. -/
def literal? (token : List Char) : Option Literal :=
  match Numeral.read? token with
  | some n => some (.number n)
  | none =>
    match unquote? token with
    | some s => some (.string (String.ofList s))
    | none =>
      if token = "true".toList then some (.bool true)
      else if token = "false".toList then some (.bool false)
      else if token = "null".toList || token = "undefined".toList then some .null
      else none

/-- What stands between the parentheses around a token. -/
def parenthesized? (token : List Char) : Option (List Char) :=
  match token with
  | '(' :: rest => if rest.getLast? = some ')' then some rest.dropLast else none
  | _ => none

theorem length_of_parenthesized? {token inner : List Char}
    (h : parenthesized? token = some inner) : inner.length < token.length := by
  unfold parenthesized? at h
  split at h
  · split at h
    · simp only [Option.some.injEq] at h
      subst h
      simp only [List.length_cons, List.length_dropLast]
      omega
    · simp at h
  · simp at h

/-- Cuts a token at an equals sign outside brackets that is not its first
character. `name` holds the characters before it, last one first. -/
def cutNamed (inside : Bool) (name : List Char) : List Char → Option (List Char × List Char)
  | [] => none
  | c :: rest =>
    if c = '[' then cutNamed true (c :: name) rest
    else if c = ']' then cutNamed false (c :: name) rest
    else if c = '=' && !inside && !name.isEmpty then some (name.reverse, rest)
    else if (c = '(' || Token.isQuote c) && !inside then none
    else cutNamed inside (c :: name) rest

/-- The name and the value of a named argument, which may have its name in
brackets. -/
def named? (token : List Char) : Option (List Char × List Char) :=
  match token with
  | [] => none
  | c :: _ =>
    if c = '(' || Token.isQuote c then none
    else (cutNamed false [] token).map fun (name, value) =>
      ((Path.bracketed? name).getD name, value)

theorem length_of_cutNamed {inside : Bool} {name text front value : List Char}
    (h : cutNamed inside name text = some (front, value)) : value.length < text.length := by
  induction text generalizing inside name with
  | nil => simp [cutNamed] at h
  | cons c text ih => grind [cutNamed]

theorem length_of_named? {token name value : List Char}
    (h : named? token = some (name, value)) : value.length < token.length := by
  unfold named? at h
  split at h
  · simp at h
  · split at h
    · simp at h
    · simp only [Option.map_eq_some_iff, Prod.mk.injEq, Prod.exists] at h
      obtain ⟨front, value', found, _, rfl⟩ := h
      exact length_of_cutNamed found

/-! ### Expressions -/

/-- The warning that a named argument occurs twice. -/
def duplicateWarning (name : String) (site : Site) : String :=
  "duplicate named argument '" ++ name ++ "' in " ++ Diagnostic.place site ++
    ", the last value wins"

/-- What a call invokes. A plain name with arguments that is no helper is
reported. -/
def callee (isHelper : String → Bool) (site : Site) (head : List Char)
    (hasArguments : Bool) : Reading Callee := do
  let name := String.ofList head
  if isHelper name then
    Reading.count fun u => { u with helpers := u.helpers + 1 }
    return .helper name
  let path ← Path.read head site
  if path.simpleName?.isSome && hasArguments then
    Reading.addError (.missingHelper name site)
  return .path path

mutual

/-- Reads a token. -/
def read (isHelper : String → Bool) (site : Site) (token : List Char) : Reading Expr :=
  match literal? token with
  | some value => pure (.literal value (String.ofList token))
  | none =>
    match h : parenthesized? token with
    | none => return .path (← Path.read token site)
    | some inner =>
      match ht : tokens [] inner with
      | .error k => throw (.unterminated k site)
      | .ok ([], _) => throw (.arguments "empty subexpression" site)
      | .ok (head :: rest, _) => do
        let (args, hash) ← readArguments isHelper site [] rest
        Reading.count fun u => { u with subexpressions := u.subexpressions + 1 }
        let callee ← callee isHelper site head (!(args.isEmpty && hash.isEmpty))
        return .call { callee, args, hash }
termination_by token.length
decreasing_by
  have inner := length_of_parenthesized? h
  have fits := room_of_tokens ht
  rw [room_cons] at fits
  omega

/-- Reads arguments; `hash` holds the named arguments before them. -/
def readArguments (isHelper : String → Bool) (site : Site) (hash : Table Expr)
    (ts : List (List Char)) : Reading (List Expr × Table Expr) :=
  match ts with
  | [] => pure ([], hash)
  | token :: ts =>
    match h : named? token with
    | some (name, value) => do
      let value ← read isHelper site value
      let name := String.ofList name
      if Table.contains hash name then Reading.addWarning (duplicateWarning name site)
      readArguments isHelper site (Table.insert hash name value) ts
    | none => do
      let arg ← read isHelper site token
      let (args, hash) ← readArguments isHelper site hash ts
      return (arg :: args, hash)
termination_by room ts
decreasing_by
  all_goals rw [room_cons]
  · have := length_of_named? h
    omega
  all_goals omega

end

end Stencil.Expr

namespace Stencil.Content

/-- Reads what a tag says. -/
def read (isHelper : String → Bool) (site : Site) (text : List Char) : Reading Content :=
  match Expr.tokens [] text with
  | .error k => throw (.unterminated k site)
  | .ok ([], _) => pure {}
  | .ok (head :: rest, blockParams) => do
    let (params, hash) ← Expr.readArguments isHelper site [] rest
    if !blockParams.isEmpty then
      Reading.count fun u => { u with blockParams := u.blockParams + 1 }
    return { head := String.ofList head, params, hash, blockParams }

/-- Reads what a partial tag says. The name of the partial is computed when it
stands in parentheses, and may be quoted or in brackets. -/
def readPartial (isHelper : String → Bool) (site : Site) (text : List Char) :
    Reading (PartialName × Content) := do
  let content ← read isHelper site text
  let head := content.head.toList
  if Text.startsWith ['('] head then
    return (.dynamic (← Expr.read isHelper site head), content)
  let name := String.ofList ((Expr.unquote? head).getD ((Path.bracketed? head).getD head))
  return (.static name, { content with head := name })

end Stencil.Content
