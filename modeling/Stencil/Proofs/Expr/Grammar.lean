import Mathlib.Data.List.Forall2
import Stencil.Proofs.Expr.RoundTrip

/-!
What is read as a quoted text or a bracketed name.

The tokenizer follows quotes and brackets character by character, so a quote that begins a token is
closed in it, and the text up to there is free of it except behind a backslash. What takes the
quotes or brackets off looks at the first and the last character only. The two agree unless more
text is glued behind the first closing character and ends in such a character too: then all of it
is taken for the text or the name. Everything else that is glued there is refused, since it is read
as a path with a reserved character outside brackets.

So what is read is related to the tokens by a grammar in which the glued forms are cases of their
own. That a refused token is not read is then a fact about the grammar alone.
-/

namespace Stencil

open Text

/-! ### Whole tokens -/

namespace Token

/-- Between two quotes: characters other than the quote and the backslash, and a backslash with
whatever character follows it. -/
inductive IsBody (q : Char) : List Char → Prop
  | nil : IsBody q []
  | plain {c : Char} {rest : List Char} : c ≠ q → c ≠ '\\' → IsBody q rest → IsBody q (c :: rest)
  | pair {c : Char} {rest : List Char} : IsBody q rest → IsBody q ('\\' :: c :: rest)

/-- From a state on, the token is all of a text. -/
def Takes (s : State) (text : List Char) : Prop :=
  scan s text = .ok (text, [])

variable {s : State}

theorem takes_nil_iff : Takes s [] ↔ s.expected = [] := by
  rw [Takes, scan]
  split <;> simp_all

theorem takes_cons_iff {c : Char} {text : List Char} :
    Takes s (c :: text) ↔ ∃ s', s.step c = some s' ∧ Takes s' text := by
  rw [Takes, scan]
  cases s.step c with
  | none => simp
  | some s' =>
      cases h : scan s' text with
      | error k => simp [Except.map, Takes, h]
      | ok parts => simp [Except.map, Takes, h, Prod.ext_iff]

/-- A token ends only where nothing is expected. -/
theorem expected_of_step {c : Char} (h : s.step c = none) : s.expected = [] := by
  simp only [State.step, State.stepOpen] at h
  grind

/-- What is scanned off a text is a token by itself. -/
theorem takes_of_scan {text token rest : List Char} (h : scan s text = .ok (token, rest)) :
    Takes s token := by
  induction text generalizing s token with
  | nil =>
      rw [scan] at h
      split at h
      · next closed =>
        cases h
        exact takes_nil_iff.mpr closed
      · cases h
  | cons c text ih =>
      rw [scan] at h
      split at h
      · next stop =>
        cases h
        exact takes_nil_iff.mpr (expected_of_step stop)
      · next s' stepped =>
        cases found : scan s' text with
        | error k => simp [found, Except.map] at h
        | ok parts =>
            rw [found] at h
            cases h
            exact takes_cons_iff.mpr ⟨s', stepped, ih found⟩

/-- A quote is closed in its token, and up to there it stands behind a backslash only. By induction
on the text, two characters at a time behind a backslash. -/
theorem exists_body {q : Char} (other : q ≠ '\\') {outer : List Closer} {s : State}
    (escaped : s.escaped = false) (expected : s.expected = .quote q :: outer) :
    (text : List Char) → Takes s text →
      ∃ body glued, text = body ++ q :: glued ∧ IsBody q body
  | [], h => by
      rw [takes_nil_iff, expected] at h
      cases h
  | c :: text, h => by
      obtain ⟨s', stepped, later⟩ := takes_cons_iff.mp h
      simp only [State.step, escaped, expected, State.stepQuoted, Bool.false_eq_true, if_false,
        Option.map_some, Option.some.injEq] at stepped
      by_cases slash : c = '\\'
      -- what follows the backslash is kept whatever it is, so the step after it is made here too
      · have behind : s'.escaped = true ∧ s'.expected = .quote q :: outer := by
          simp [← stepped, slash]
        cases text with
        | nil => simp [takes_nil_iff, behind.2] at later
        | cons d text =>
            obtain ⟨t, stepped, later⟩ := takes_cons_iff.mp later
            have after : t.escaped = false ∧ t.expected = .quote q :: outer := by
              simp only [State.step, behind.1, if_true, Option.some.injEq] at stepped
              simp [← stepped, behind.2]
            obtain ⟨body, glued, rfl, valid⟩ := exists_body other after.1 after.2 text later
            exact ⟨_, glued, by rw [slash]; rfl, .pair valid⟩
      · by_cases closes : c = q
        · exact ⟨[], text, by rw [closes]; rfl, .nil⟩
        · have after : s'.escaped = false ∧ s'.expected = .quote q :: outer := by
            simp [← stepped, slash, closes, escaped, expected]
          obtain ⟨body, glued, rfl, valid⟩ := exists_body other after.1 after.2 text later
          exact ⟨_, glued, rfl, .plain closes slash valid⟩

/-- Behind an equals sign a token goes on as it begins. -/
theorem takes_start {text : List Char} (escaped : s.escaped = false) (expected : s.expected = [])
    (opens : opensQuote s.last = true) (h : Takes s text) : Takes {} text := by
  cases text with
  | nil => exact takes_nil_iff.mpr rfl
  | cons c text =>
      obtain ⟨s', stepped, later⟩ := takes_cons_iff.mp h
      refine takes_cons_iff.mpr ⟨s', ?_, later⟩
      rw [← stepped]
      have start : opensQuote none = true := rfl
      simp only [State.step, State.stepOpen, escaped, expected, opens, start, State.push, State.pop]
      grind

end Token

namespace Expr

open Token (Takes IsBody State isQuote)

/-- The tokens of a content are tokens by themselves. -/
theorem takes_of_tokens {params names : List String} {text : List Char} {ts : List (List Char)}
    (h : tokens params text = .ok (ts, names)) : ∀ t ∈ ts, Takes {} t := by
  fun_induction tokens params text generalizing ts names with
  | case1 => simp at h
  | case2 =>
      cases h
      exact List.forall_mem_nil _
  | case3 => simp at h
  | case4 params text token rest next names' tail bars ih => exact ih h
  | case5 params text token rest next none ih =>
      cases found : tokens params rest with
      | error k => simp [found, Except.map] at h
      | ok parts =>
          rw [found] at h
          cases h
          refine List.forall_mem_cons.mpr ⟨?_, ih found⟩
          rw [Token.next?] at next
          split at next
          · cases next
          · next c tail trimmed =>
            cases scanned : Token.scan {} (c :: tail) with
            | error k => simp [scanned, Except.map] at next
            | ok parts =>
                rw [scanned] at next
                cases next
                exact Token.takes_of_scan scanned

/-- Inside brackets, where a name may be, the tokenizer looks for the closing bracket only. -/
theorem step_inside {s s' : State} {c : Char} (escaped : s.escaped = false)
    (expected : s.expected = [.bracket]) (stepped : s.step c = some s') :
    s'.escaped = false ∧ s'.expected = if c = ']' then [] else [.bracket] := by
  simp only [State.step, escaped, expected, Bool.false_eq_true, if_false, Option.map_some,
    Option.some.injEq] at stepped
  subst stepped
  split <;> simp [State.pop, escaped, expected]

/-- Outside of everything, what opens no quote and no parenthesis opens a bracket at most. -/
theorem step_outside {s s' : State} {c : Char} (escaped : s.escaped = false)
    (expected : s.expected = []) (plain : c ≠ '(' ∧ isQuote c = false)
    (stepped : s.step c = some s') :
    s'.escaped = false ∧ s'.last = some c ∧ s'.expected = if c = '[' then [.bracket] else [] := by
  simp only [State.step, escaped, expected, State.stepOpen, plain, State.push] at stepped
  grind

/-- The value of a named argument is a token by itself. By induction on what stands before it: the
search for the equals sign is inside brackets where the tokenizer is. -/
theorem takes_of_cutNamed {inside : Bool} {name text front value : List Char} {s : State}
    (escaped : s.escaped = false) (brackets : s.expected = if inside then [.bracket] else [])
    (h : Takes s text) (cut : cutNamed inside name text = some (front, value)) :
    Takes {} value := by
  induction text generalizing inside name s with
  | nil => simp [cutNamed] at cut
  | cons c text ih =>
      obtain ⟨s', stepped, later⟩ := Token.takes_cons_iff.mp h
      rw [cutNamed] at cut
      cases inside with
      | true =>
          obtain ⟨escaped', expected⟩ := step_inside escaped brackets stepped
          by_cases closes : c = ']'
          · subst closes
            exact ih escaped' expected later cut
          · have goes_on : cutNamed true (c :: name) text = some (front, value) := by
              simpa [closes] using cut
            exact ih escaped' (by simpa [closes] using expected) later goes_on
      | false =>
          have plain : c ≠ '(' ∧ isQuote c = false := by
            by_contra special
            grind [isQuote]
          obtain ⟨escaped', last, expected⟩ := step_outside escaped brackets plain stepped
          split at cut
          · next opens => exact ih escaped' (by rw [expected, if_pos opens]; rfl) later cut
          · next opens =>
            rw [if_neg opens] at expected
            split at cut
            · exact ih escaped' (by rw [expected]; rfl) later cut
            · split at cut
              · next ends =>
                cases cut
                -- the equals sign is what was looked at last, as if a token began behind it
                have equals : c = '=' := by grind
                exact Token.takes_start escaped' expected (by rw [last, equals]; rfl) later
              · have goes_on : cutNamed false (c :: name) text = some (front, value) := by
                  simpa [plain] using cut
                exact ih escaped' (by rw [expected]; rfl) later goes_on

/-- The token that is read as an expression when a token is read as an argument: the value of a
named one. -/
def argument (token : List Char) : List Char :=
  match named? token with
  | some (_, value) => value
  | none => token

theorem takes_argument {token : List Char} (h : Takes {} token) : Takes {} (argument token) := by
  unfold argument
  split
  · next name value found =>
    unfold named? at found
    split at found
    · cases found
    · split at found
      · cases found
      · obtain ⟨⟨front, value'⟩, cut, same⟩ := Option.map_eq_some_iff.mp found
        cases same
        exact takes_of_cutNamed rfl rfl h cut
  · exact h

/-! ### Quoted texts -/

/-- A token writes a text between quotes. -/
inductive Quotes : (token text : List Char) → Prop
  | whole {q : Char} {body : List Char} : isQuote q = true → IsBody q body →
      Quotes (q :: (body ++ [q])) (unescape q body)
  /-- More is glued behind the closing quote, and it ends in such a quote too. -/
  | glued {q : Char} {body more : List Char} : isQuote q = true → IsBody q body →
      Quotes (q :: (body ++ q :: (more ++ [q]))) (unescape q (body ++ q :: more))

theorem ne_slash_of_isQuote {q : Char} (h : isQuote q = true) : q ≠ '\\' := by
  rintro rfl
  cases h

/-- A token that begins with a quote is read up to the first quote that closes it. -/
theorem exists_body_of_takes {q : Char} {rest : List Char} (quote : isQuote q = true)
    (h : Takes {} (q :: rest)) : ∃ body glued, rest = body ++ q :: glued ∧ IsBody q body := by
  obtain ⟨s', stepped, later⟩ := Token.takes_cons_iff.mp h
  have opened : s' = { expected := [.quote q], last := some q } := by
    have start : Token.opensQuote none = true := rfl
    simp only [State.step, State.stepOpen, quote, start, State.push] at stepped
    simpa using stepped.symm
  subst opened
  exact Token.exists_body (ne_slash_of_isQuote quote) rfl rfl rest later

theorem unquote?_of_literal? {token : List Char} {text : String}
    (h : literal? token = some (.string text)) : unquote? token = some text.toList := by
  rw [literal?] at h
  split at h
  · cases h
  · split at h
    · next found =>
      cases h
      rw [found, String.toList_ofList]
    · split at h
      · cases h
      · split at h
        · cases h
        · split at h <;> cases h

/-- What is read as a text is written between quotes. -/
theorem quotes_of_unquote? {token text : List Char} (h : Takes {} token)
    (unquoted : unquote? token = some text) : Quotes token text := by
  unfold unquote? at unquoted
  split at unquoted
  · next q rest =>
    split at unquoted
    · next ends =>
      obtain ⟨quote, last⟩ : isQuote q = true ∧ rest.getLast? = some q := by simpa using ends
      obtain ⟨body, glued, rfl, valid⟩ := exists_body_of_takes quote h
      rw [← Option.some.inj unquoted]
      -- the quote that closes the body is the last character, or there is another one behind it
      rcases List.eq_nil_or_concat glued with rfl | ⟨more, d, rfl⟩
      · rw [List.dropLast_concat]
        exact .whole quote valid
      · rw [List.concat_eq_append] at last ⊢
        have ending : body ++ q :: (more ++ [d]) = body ++ q :: more ++ [d] := by simp
        rw [ending, List.getLast?_concat] at last
        cases last
        have front : (body ++ q :: (more ++ [q])).dropLast = body ++ q :: more := by
          rw [ending, List.dropLast_concat]
        rw [front]
        exact .glued quote valid
    · cases unquoted
  · cases unquoted

/-- What begins with a quote is no number. -/
theorem read?_quote {q : Char} (h : isQuote q = true) (rest : List Char) :
    Numeral.read? (q :: rest) = none := by
  have either : q = '"' ∨ q = '\'' := by simpa [isQuote] using h
  rcases either with rfl | rfl <;> exact Numeral.read?_eq_none rfl (by decide) rest

theorem literal?_of_quotes {token text : List Char} (h : Quotes token text) :
    literal? token = some (.string (String.ofList text)) := by
  obtain ⟨q, inside, quote, rfl, rfl⟩ : ∃ q inside, isQuote q = true ∧
      token = q :: (inside ++ [q]) ∧ text = unescape q inside := by
    cases h with
    | @whole q body quote => exact ⟨q, body, quote, rfl, rfl⟩
    | @glued q body more quote => exact ⟨q, body ++ q :: more, quote, by simp, rfl⟩
  simp [literal?, read?_quote quote, unquote?, quote]

end Expr

/-! ### Names of members -/

namespace Path

/-- What follows the mark of a special variable. -/
def unmarked : List Char → List Char
  | '@' :: body => body
  | body => body

/-- The segments of a path as they are written. -/
def written (token : List Char) : List (List Char) :=
  split (members (steps 0 (unmarked token)).2)

/-- A segment writes a name. -/
inductive Writes : (segment name : List Char) → Prop
  | bare {name : List Char} : name ≠ [] → name.any isReserved = false → Writes name name
  | bracketed {name : List Char} : ']' ∉ name → Writes ('[' :: (name ++ [']'])) name
  /-- More is glued behind the closing bracket, and it ends in such a bracket too. -/
  | glued {name more : List Char} : ']' ∉ name →
      Writes ('[' :: (name ++ ']' :: (more ++ [']']))) (name ++ ']' :: more)

theorem writes_of_bracketed? {segment name : List Char} (h : bracketed? segment = some name) :
    Writes segment name := by
  unfold bracketed? at h
  split at h
  · next s =>
    split at h
    · next last =>
      obtain ⟨front, rfl⟩ := List.getLast?_eq_some_iff.mp last
      rw [List.dropLast_concat] at h
      cases h
      by_cases inside : ']' ∈ name
      · obtain ⟨a, more, rfl, first⟩ := List.eq_append_cons_of_mem inside
        rw [List.append_assoc]
        exact .glued first
      · exact .bracketed inside
    · cases h
  · cases h

/-- A segment is accepted just when it writes a name. -/
theorem segmentName?_eq_some_iff {segment name : List Char} :
    segmentName? segment = some name ↔ Writes segment name := by
  unfold segmentName?
  constructor
  · intro h
    split at h
    · next found =>
      cases h
      exact writes_of_bracketed? found
    · split at h
      · cases h
      · next fine =>
        cases h
        simp only [Bool.or_eq_true, not_or, Bool.not_eq_true, List.isEmpty_eq_false_iff] at fine
        exact .bare fine.1 fine.2
  · intro h
    cases h with
    | bare filled plain =>
        have open_ended : bracketed? segment = none := by
          unfold bracketed?
          split
          · simp [isReserved] at plain
          · rfl
        simp [open_ended, filled, plain]
    | bracketed => simp [bracketed?]
    | @glued front more =>
        have ending : front ++ ']' :: (more ++ [']']) = front ++ ']' :: more ++ [']'] := by simp
        rw [ending]
        simp only [bracketed?, List.getLast?_concat, List.dropLast_concat, if_true]

/-- A path has the names that the segments of the token write. -/
structure Spells (token : List Char) (p : Path) : Prop where
  names : List.Forall₂ Writes (written token) (p.segments.map String.toList)
  source : p.source = String.ofList token

theorem forall₂_of_mapM {segments names : List (List Char)}
    (h : segments.mapM segmentName? = some names) : List.Forall₂ Writes segments names := by
  induction segments generalizing names with
  | nil =>
      cases h
      exact .nil
  | cons segment segments ih =>
      simp only [List.mapM_cons, Option.bind_eq_bind, Option.bind_eq_some_iff, Option.pure_def,
        Option.some.injEq] at h
      obtain ⟨name, first, names', later, rfl⟩ := h
      exact .cons (segmentName?_eq_some_iff.mp first) (ih later)

theorem spells_of_parse {token : List Char} {site : Site} {p : Path}
    (h : parse token site = .ok p) : Spells token p := by
  unfold parse at h
  split at h
  next special body read =>
  have same : body = unmarked token := by
    unfold unmarked
    split at read <;> cases read <;> simp_all
  simp only [same] at h
  split at h
  · cases h
  · split at h
    · next names named =>
      cases h
      refine ⟨?_, rfl⟩
      have all : List.Forall₂ Writes (written token) names := forall₂_of_mapM named
      simpa [Function.comp_def] using all
    · cases h

end Path

/-! ### Expressions -/

/-- What a call invokes is the helper that its head names, or else the path there. -/
def Callee.Spells (isHelper : String → Bool) (head : List Char) : Callee → Prop
  | .helper name => name = String.ofList head ∧ isHelper name = true
  | .path p => isHelper (String.ofList head) = false ∧ p.Spells head

namespace Expr

open Token (Takes IsBody isQuote)

mutual

/-- The token is written as the expression is. -/
inductive Spells (isHelper : String → Bool) : (token : List Char) → Expr → Prop
  | text {token : List Char} {s : String} : Quotes token s.toList →
      Spells isHelper token (.literal (.string s) (String.ofList token))
  | literal {token : List Char} {value : Literal} : literal? token = some value →
      (∀ s, value ≠ .string s) → Spells isHelper token (.literal value (String.ofList token))
  | path {token : List Char} {p : Path} : parenthesized? token = none → p.Spells token →
      Spells isHelper token (.path p)
  | call {token inner head : List Char} {rest : List (List Char)} {names : List String} {c : Call} :
      parenthesized? token = some inner → tokens [] inner = .ok (head :: rest, names) →
      c.callee.Spells isHelper head → SpellsArguments isHelper [] rest c.args c.hash →
      Spells isHelper token (.call c)

/-- The tokens are written as the arguments and the named arguments are; `before` holds the named
arguments in front of them. -/
inductive SpellsArguments (isHelper : String → Bool) :
    (before : Table Expr) → (ts : List (List Char)) → List Expr → Table Expr → Prop
  | nil {before : Table Expr} : SpellsArguments isHelper before [] [] before
  | named {before hash : Table Expr} {t name value : List Char} {ts : List (List Char)} {e : Expr}
      {args : List Expr} : named? t = some (name, value) → Spells isHelper value e →
      SpellsArguments isHelper (before.insert (String.ofList name) e) ts args hash →
      SpellsArguments isHelper before (t :: ts) args hash
  | positional {before hash : Table Expr} {t : List Char} {ts : List (List Char)} {e : Expr}
      {args : List Expr} : named? t = none → Spells isHelper t e →
      SpellsArguments isHelper before ts args hash →
      SpellsArguments isHelper before (t :: ts) (e :: args) hash

end

/-- A token that is read neither as a text nor as one name after the other: more is glued behind
the closing quote or bracket, and does not end in such a character itself. -/
inductive Breaks : (token : List Char) → Prop
  | quote {q : Char} {body glued : List Char} : isQuote q = true → IsBody q body →
      glued ≠ [] → glued.getLast? ≠ some q → Breaks (q :: (body ++ q :: glued))
  | bracket {token name glued : List Char} : literal? token = none → parenthesized? token = none →
      '[' :: (name ++ ']' :: glued) ∈ Path.written token → ']' ∉ name →
      glued ≠ [] → glued.getLast? ≠ some ']' → Breaks token

/-- Reading the one token reads the other one, which is a part of it in parentheses. -/
inductive Reads (isHelper : String → Bool) : (token part : List Char) → Prop
  | whole {token : List Char} : Reads isHelper token token
  | head {token inner head : List Char} {rest : List (List Char)} {names : List String} :
      parenthesized? token = some inner → tokens [] inner = .ok (head :: rest, names) →
      isHelper (String.ofList head) = false → Reads isHelper token head
  | argument {token inner head t part : List Char} {rest : List (List Char)}
      {names : List String} : parenthesized? token = some inner →
      tokens [] inner = .ok (head :: rest, names) → t ∈ rest →
      Reads isHelper (argument t) part → Reads isHelper token part

/-- Such a token is left to be a path, and one of its segments is no name. -/
theorem Breaks.illegal {token : List Char} (h : Breaks token) :
    literal? token = none ∧ parenthesized? token = none ∧
      ∃ segment ∈ Path.written token, Path.segmentName? segment = none := by
  cases h with
  | @quote q body glued quote valid more last =>
      have ends : (q :: glued).getLast? ≠ some q := by rwa [List.getLast?_cons_of_ne_nil more]
      have either : q = '"' ∨ q = '\'' := by simpa [isQuote] using quote
      obtain ⟨tail, others, parts⟩ := Path.splitFrom_start false [q] (body ++ q :: glued)
      have segments : Path.written (q :: (body ++ q :: glued)) = (q :: tail) :: others := by
        rcases either with rfl | rfl <;>
          simpa [Path.written, Path.unmarked, Path.steps, Path.members, Path.split, Path.splitFrom]
            using parts
      refine ⟨?_, ?_, q :: tail, segments ▸ List.mem_cons_self, ?_⟩
      · rcases either with rfl | rfl <;> simp [literal?, read?_quote quote, unquote?, ends]
      · rcases either with rfl | rfl <;> rfl
      · rcases either with rfl | rfl <;> simp [Path.segmentName?, Path.bracketed?, Path.isReserved]
  | @bracket _ name glued text call member closed more last =>
      refine ⟨text, call, _, member, ?_⟩
      have ends : (']' :: glued).getLast? ≠ some ']' := by
        rwa [List.getLast?_cons_of_ne_nil more]
      simp [Path.segmentName?, Path.bracketed?, ends, Path.isReserved]

end Expr

/-- What is spelled as a path has a name for each segment. -/
theorem Path.Spells.not_breaks {token : List Char} {p : Path} (h : p.Spells token) :
    ¬ Expr.Breaks token := by
  intro breaks
  obtain ⟨-, -, segment, member, illegal⟩ := breaks.illegal
  have named := h.names
  generalize written token = segments at named member
  generalize p.segments.map String.toList = names at named
  induction named with
  | nil => cases member
  | cons first _ ih =>
      rcases List.mem_cons.mp member with rfl | later
      · rw [segmentName?_eq_some_iff.mpr first] at illegal
        cases illegal
      · exact ih later

namespace Expr

/-- Nothing that is read for a token breaks off. -/
def IsUnbroken (isHelper : String → Bool) (token : List Char) : Prop :=
  ∀ part, Reads isHelper token part → ¬ Breaks part

theorem literal?_of_parenthesized? {token inner : List Char}
    (h : parenthesized? token = some inner) : literal? token = none := by
  unfold parenthesized? at h
  split at h
  · exact literal?_eq_none (.inl rfl) _
  · cases h

section

variable {isHelper : String → Bool} {token : List Char}

theorem IsUnbroken.of_literal {value : Literal} (h : literal? token = some value) :
    IsUnbroken isHelper token := by
  have noCall {inner : List Char} (call : parenthesized? token = some inner) : False := by
    rw [literal?_of_parenthesized? call] at h
    cases h
  intro part reads breaks
  cases reads with
  | whole =>
      rw [breaks.illegal.1] at h
      cases h
  | head call => exact noCall call
  | argument call => exact noCall call

theorem IsUnbroken.of_path {p : Path} (noCall : parenthesized? token = none)
    (h : p.Spells token) : IsUnbroken isHelper token := by
  intro part reads breaks
  cases reads with
  | whole => exact h.not_breaks breaks
  | head call => simp [noCall] at call
  | argument call => simp [noCall] at call

theorem IsUnbroken.of_call {inner head : List Char} {rest : List (List Char)}
    {names : List String} (call : parenthesized? token = some inner)
    (cut : tokens [] inner = .ok (head :: rest, names)) {callee : Callee}
    (invoked : callee.Spells isHelper head)
    (arguments : ∀ t ∈ rest, IsUnbroken isHelper (argument t)) : IsUnbroken isHelper token := by
  have same {inner' head' : List Char} {rest' : List (List Char)} {names' : List String}
      (call' : parenthesized? token = some inner')
      (cut' : tokens [] inner' = .ok (head' :: rest', names')) : head' = head ∧ rest' = rest := by
    cases call.symm.trans call'
    cases cut.symm.trans cut'
    exact ⟨rfl, rfl⟩
  intro part reads breaks
  cases reads with
  | whole => simp [breaks.illegal.2.1] at call
  | head call' cut' other =>
      obtain ⟨rfl, -⟩ := same call' cut'
      -- the head is read as a path only when it names no helper
      cases callee with
      | helper name => simp [invoked.1 ▸ invoked.2] at other
      | path p => exact invoked.2.not_breaks breaks
  | argument call' cut' member inside =>
      obtain ⟨-, rfl⟩ := same call' cut'
      exact arguments _ member part inside breaks

mutual

/-- What is spelled as an expression does not break. -/
theorem Spells.unbroken {token : List Char} {e : Expr} :
    Spells isHelper token e → IsUnbroken isHelper token
  | .text quoted => .of_literal (literal?_of_quotes quoted)
  | .literal read _ => .of_literal read
  | .path noCall spelled => .of_path noCall spelled
  | .call inner cut invoked arguments => .of_call inner cut invoked arguments.unbroken

theorem SpellsArguments.unbroken {before hash : Table Expr} {ts : List (List Char)}
    {args : List Expr} : SpellsArguments isHelper before ts args hash →
      ∀ t ∈ ts, IsUnbroken isHelper (argument t)
  | .nil => nofun
  | .named found value rest =>
      List.forall_mem_cons.mpr ⟨by rw [argument, found]; exact value.unbroken, rest.unbroken⟩
  | .positional found value rest =>
      List.forall_mem_cons.mpr ⟨by rw [argument, found]; exact value.unbroken, rest.unbroken⟩

end

end

end Expr

/-! ### Reading -/

namespace Reading

/-- Whatever the computation results in is as `p` says. -/
def Gives {α : Type} (x : Reading α) (p : α → Prop) : Prop :=
  ∀ r a, (x.run.run r).1 = .ok a → p a

/-- The computation stops at a diagnostic, whatever was reported before. -/
def Refuses {α : Type} (x : Reading α) : Prop :=
  ∀ r, ∃ d, (x.run.run r).1 = .error d

namespace Gives

variable {α β : Type} {x : Reading α} {p q : α → Prop}

theorem pure {a : α} (h : p a) : Gives (Pure.pure a) p := by
  rintro r _ ⟨⟩
  exact h

theorem throw (d : Diagnostic) : Gives (throw d : Reading α) p :=
  fun _ _ never => nomatch never

theorem bind {f : α → Reading β} {q : β → Prop} (h : Gives x p)
    (next : ∀ a, p a → Gives (f a) q) : Gives (x >>= f) q := by
  intro r b result
  change ((ExceptT.bindCont f (x.run.run r).1).run (x.run.run r).2).1 = _ at result
  cases first : (x.run.run r).1 with
  | ok a =>
      rw [first] at result
      exact next a (h r a first) _ b result
  | error d =>
      rw [first] at result
      cases result

theorem weaken (h : Gives x p) (imp : ∀ a, p a → q a) : Gives x q :=
  fun r a result => imp a (h r a result)

theorem refuses (h : Gives x p) (never : ∀ a, ¬ p a) : Refuses x := by
  intro r
  cases result : (x.run.run r).1 with
  | ok a => exact absurd (h r a result) (never a)
  | error d => exact ⟨d, rfl⟩

theorem always (x : Reading α) : Gives x fun _ => True :=
  fun _ _ _ => trivial

theorem ofExcept (x : Except Diagnostic α) : Gives (liftM x : Reading α) fun a => x = .ok a := by
  intro r a result
  cases x with
  | ok b =>
      cases result
      rfl
  | error d => cases result

end Gives

end Reading

open Reading (Gives Refuses)

namespace Path

theorem read_gives (token : List Char) (site : Site) : Gives (read token site) (Spells token) :=
  .bind (.ofExcept _) fun _ parsed => .bind (.always _) fun _ _ => .pure (spells_of_parse parsed)

end Path

namespace Expr

open Token (Takes)

variable (isHelper : String → Bool) (site : Site)

theorem callee_gives (head : List Char) (hasArguments : Bool) :
    Gives (callee isHelper site head hasArguments) (Callee.Spells isHelper head) := by
  unfold callee
  simp only
  split
  · next known => exact .bind (.always _) fun _ _ => .pure ⟨rfl, known⟩
  · next unknown =>
    refine .bind (Path.read_gives head site) fun p spelled => ?_
    have result : Gives (pure (.path p) : Reading Callee) (Callee.Spells isHelper head) :=
      .pure ⟨by simpa using unknown, spelled⟩
    split
    · exact .bind (.always _) fun _ _ => result
    · exact result

mutual

/-- What a token is read as is spelled by it. -/
theorem read_gives (token : List Char) (taken : Takes {} token) :
    Gives (read isHelper site token) (Spells isHelper token) := by
  rw [read]
  split
  · next value literal =>
    refine .pure ?_
    cases value with
    | string s => exact .text (quotes_of_unquote? taken (unquote?_of_literal? literal))
    | null | bool b | number n => exact .literal literal nofun
  · split
    · next noCall =>
      exact .bind (Path.read_gives token site) fun p spelled => .pure (.path noCall spelled)
    · next inner call =>
      split
      · exact .throw _
      · exact .throw _
      · next head rest names cut =>
        have smaller : room rest < token.length := by
          have inner := length_of_parenthesized? call
          have fits := room_of_tokens cut
          rw [room_cons] at fits
          omega
        have whole : ∀ t ∈ rest, Takes {} t := fun t member =>
          takes_of_tokens cut t (List.mem_cons_of_mem head member)
        exact .bind (readArguments_gives [] rest whole) fun arguments spelled =>
          .bind (.always _) fun _ _ => .bind (callee_gives isHelper site head _)
            fun callee invoked => .pure (.call call cut invoked spelled)
termination_by token.length

theorem readArguments_gives (hash : Table Expr) (ts : List (List Char))
    (taken : ∀ t ∈ ts, Takes {} t) :
    Gives (readArguments isHelper site hash ts) fun arguments =>
      SpellsArguments isHelper hash ts arguments.1 arguments.2 := by
  match ts with
  | [] =>
      rw [readArguments]
      exact .pure .nil
  | token :: ts =>
      have first : token.length < room (token :: ts) := by rw [room_cons]; omega
      have others : room ts < room (token :: ts) := by rw [room_cons]; omega
      obtain ⟨here, later⟩ := List.forall_mem_cons.mp taken
      rw [readArguments]
      split
      · next name value found =>
        have shorter : value.length < room (token :: ts) :=
          Nat.lt_trans (length_of_named? found) first
        -- the value is what is read, not the token with the name
        have inside : Takes {} value := by
          have argument_taken := takes_argument here
          rwa [argument, found] at argument_taken
        refine .bind (read_gives value inside) fun e spelled => ?_
        have rest := (readArguments_gives (hash.insert (String.ofList name) e) ts later).weaken
          fun _ => SpellsArguments.named found spelled
        simp only
        split
        · exact .bind (.always _) fun _ _ => rest
        · exact rest
      · next plain =>
        exact .bind (read_gives token here) fun e spelled =>
          .bind (readArguments_gives hash ts later) fun arguments rest =>
            .pure (.positional plain spelled rest)
termination_by room ts

end

end Expr

namespace Content

open Stencil.Expr (Reads Breaks argument SpellsArguments)
open Token (IsBody isQuote)

/-- A text is written as the content of a tag is. -/
inductive Spells (isHelper : String → Bool) (text : List Char) : Content → Prop
  | blank {params : List String} : Expr.tokens [] text = .ok ([], params) →
      Spells isHelper text {}
  | words {head : List Char} {rest : List (List Char)} {args : List Expr} {hash : Table Expr}
      {blockParams : List String} : Expr.tokens [] text = .ok (head :: rest, blockParams) →
      SpellsArguments isHelper [] rest args hash →
      Spells isHelper text { head := String.ofList head, params := args, hash, blockParams }

section

variable (isHelper : String → Bool) (site : Site) (text : List Char)

theorem read_gives : Gives (read isHelper site text) (Spells isHelper text) := by
  unfold read
  split
  · exact .throw _
  · next cut => exact .pure (.blank cut)
  · next head rest names cut =>
    have whole := (List.forall_mem_cons.mp (Expr.takes_of_tokens cut)).2
    refine .bind (Expr.readArguments_gives isHelper site [] rest whole) fun arguments spelled => ?_
    simp only
    split
    · exact .bind (.always _) fun _ _ => .pure (.words cut spelled)
    · exact .pure (.words cut spelled)

/-- What a tag says is spelled by its text, and so is what its head is read as, whether it is read
as an expression or as a path. Where a token that is to be read breaks, the tag is refused. -/
theorem accepts_grammar :
    Gives (read isHelper site text) (Spells isHelper text) ∧
      ∀ head rest names, Expr.tokens [] text = .ok (head :: rest, names) →
        (∀ t ∈ rest, ∀ part, Reads isHelper (argument t) part → Breaks part →
          Refuses (read isHelper site text)) ∧
        (Gives (Expr.read isHelper site head) (Expr.Spells isHelper head) ∧
          ∀ part, Reads isHelper head part → Breaks part →
            Refuses (Expr.read isHelper site head)) ∧
        Gives (Path.read head site) (Path.Spells head) ∧
          (Breaks head → Refuses (Path.read head site)) := by
  have spelled := read_gives isHelper site text
  refine ⟨spelled, fun head rest names cut => ?_⟩
  have headSpelled := Expr.read_gives isHelper site head
    (Expr.takes_of_tokens cut head List.mem_cons_self)
  have pathSpelled := Path.read_gives head site
  refine ⟨fun t member part reads breaks => ?_, ⟨headSpelled, fun part reads breaks => ?_⟩,
    pathSpelled, fun breaks => ?_⟩
  · refine spelled.refuses fun content spelled => ?_
    cases spelled with
    | blank cut' => simp [cut] at cut'
    | words cut' arguments =>
        cases cut.symm.trans cut'
        exact arguments.unbroken t member part reads breaks
  · exact headSpelled.refuses fun e spelled => spelled.unbroken part reads breaks
  · exact pathSpelled.refuses fun p spelled => spelled.not_breaks breaks

end

/-- Texts and names are read from a tag, and a text with more glued behind it is refused, also as
the value of a named argument in parentheses. -/
theorem whole_accepted :
    (∃ content, ((read (fun _ => false) ⟨"h", 1⟩ "h 'a\"b' [c d].e".toList).run.run {}).1 =
        .ok content ∧ content.params.length = 2 ∧
          Spells (fun _ => false) "h 'a\"b' [c d].e".toList content) ∧
      Refuses (read (fun _ => false) ⟨"h", 1⟩ "h (f k='a'b)".toList) := by
  constructor
  · have found :
        ((read (fun _ => false) ⟨"h", 1⟩ "h 'a\"b' [c d].e".toList).run.run {}).1.map
          (fun content => content.params.length) = .ok 2 := by
      decide +kernel
    cases result : ((read (fun _ => false) ⟨"h", 1⟩ "h 'a\"b' [c d].e".toList).run.run {}).1 with
    | error d =>
        rw [result] at found
        cases found
    | ok content =>
        rw [result] at found
        exact ⟨content, rfl, Except.ok.inj found, (accepts_grammar _ _ _).1 _ content result⟩
  · have valid : IsBody '\'' ['a'] := .plain (by decide) (by decide) .nil
    have glued : Breaks ('\'' :: (['a'] ++ '\'' :: ['b'])) :=
      .quote rfl valid nofun (by decide)
    have cut : Expr.tokens [] "f k='a'b".toList = .ok (["f".toList, "k='a'b".toList], []) := by
      decide +kernel
    have inside : Reads (fun _ => false) "(f k='a'b)".toList "'a'b".toList :=
      .argument rfl cut List.mem_cons_self .whole
    have outside : Expr.tokens [] "h (f k='a'b)".toList =
        .ok (["h".toList, "(f k='a'b)".toList], []) := by
      decide +kernel
    exact ((accepts_grammar _ _ _).2 _ _ _ outside).1 _ List.mem_cons_self _ inside glued

/-- The text that a literal argument is, and how it is written. -/
def asText? : Expr → Option (String × String)
  | .literal (.string s) source => some (s, source)
  | _ => none

/-- A text and a name with more glued behind them are taken whole, if the character that ends them
comes last again. -/
theorem glued_accepted : ∃ content,
    ((read (fun _ => false) ⟨"h", 1⟩ "h \"a\"b\" [a]b]".toList).run.run {}).1 = .ok content ∧
      content.params.filterMap asText? = [("a\"b", "\"a\"b\"")] ∧
      (content.params.filterMap Expr.asPath?).map Path.segments = [["a]b"]] ∧
      ¬ ∃ q body, isQuote q = true ∧ IsBody q body ∧ "\"a\"b\"".toList = q :: (body ++ [q]) := by
  have found : ((read (fun _ => false) ⟨"h", 1⟩ "h \"a\"b\" [a]b]".toList).run.run {}).1.map
      (fun content => (content.params.filterMap asText?,
        (content.params.filterMap Expr.asPath?).map Path.segments)) =
      .ok ([("a\"b", "\"a\"b\"")], [["a]b"]]) := by
    decide +kernel
  cases result : ((read (fun _ => false) ⟨"h", 1⟩ "h \"a\"b\" [a]b]".toList).run.run {}).1 with
  | error d =>
      rw [result] at found
      cases found
  | ok content =>
      rw [result] at found
      obtain ⟨texts, names⟩ := Prod.ext_iff.mp (Except.ok.inj found)
      refine ⟨content, rfl, texts, names, ?_⟩
      rintro ⟨q, body, -, valid, same⟩
      obtain ⟨rfl, rest⟩ := List.cons.inj same
      obtain rfl : ['a', '"', 'b'] = body := List.append_cancel_right rest
      cases valid with
      | plain _ _ valid =>
        cases valid with
        | plain other => exact other rfl

end Content

end Stencil
