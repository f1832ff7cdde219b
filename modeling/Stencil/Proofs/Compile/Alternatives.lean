import Stencil.Proofs.Compile.Headers
import Stencil.Render.Plan

/-!
Else tags.

A block has one else branch. The first else tag begins it, and a chained one opens a
block of its own inside it, which has an else branch again. An else tag behind a plain
one finds no branch to begin. It is not reported, and building goes on as if it were
not there: what follows it belongs to the branch that is begun.
-/

namespace Stencil

open Compiling Markup

namespace Header

/-- Whether a tag is an else tag that the innermost block does not obey. -/
def passesOver (headers : List Header) (tag : Tag) : Bool :=
  match tag.kind with
  | .alternative _ => !(headers.head?.any acceptsElse)
  | _ => false

/-- The tokens without the else tags that are passed over. -/
def obeyed (headers : List Header) : List Token → List Token
  | [] => []
  | .text text :: tokens => .text text :: obeyed headers tokens
  | .tag tag :: tokens =>
    if passesOver headers tag then obeyed headers tokens
    else .tag tag :: obeyed (behind headers tag) tokens

/-- No else tag is left to be passed over. -/
theorem obeyed_not_passesOver {headers : List Header} {tokens before after : List Token} {tag : Tag}
    (split : obeyed headers tokens = before ++ .tag tag :: after) :
    passesOver (behindAll headers before) tag = false := by
  induction tokens generalizing headers before with
  | nil =>
      rw [obeyed] at split
      simp at split
  | cons token tokens ih =>
      cases token with
      | text text =>
          rw [obeyed] at split
          cases before with
          | nil => simp at split
          | cons first before =>
              obtain ⟨rfl, rest⟩ := List.cons_eq_cons.mp split
              have obeys := ih rest
              exact obeys
      | tag other =>
          rw [obeyed] at split
          cases passed : passesOver headers other with
          | true => exact ih (by simpa [passed] using split)
          | false =>
              rw [passed, if_neg Bool.false_ne_true] at split
              cases before with
              | nil =>
                  obtain ⟨same, -⟩ := List.cons_eq_cons.mp split
                  cases same
                  exact passed
              | cons first before =>
                  obtain ⟨rfl, rest⟩ := List.cons_eq_cons.mp split
                  have obeys := ih rest
                  exact obeys

end Header

namespace BuildContext

variable (ctx : BuildContext)

theorem addTag_passed {d : Draft} {tag : Tag} (h : Header.passesOver d.headers tag = true) :
    ctx.addTag d tag = pure d := by
  obtain ⟨root, scopes⟩ := d
  unfold Header.passesOver at h
  split at h
  · next chained kind =>
    unfold addTag
    rw [kind]
    cases scopes with
    | nil => rfl
    | cons scope scopes =>
        have refuses : acceptsElse scope = false := by
          rw [acceptsElse_header]
          simpa [Draft.headers] using h
        simp only [beginElse, refuses, if_neg Bool.false_ne_true]
  · cases h

theorem addTokens_obeyed (d : Draft) (tokens : List Token) (c : Compilation) :
    (ctx.addTokens d (Header.obeyed d.headers tokens)).run c = (ctx.addTokens d tokens).run c := by
  induction tokens generalizing d c with
  | nil => rfl
  | cons token tokens ih =>
      cases token with
      | text text =>
          have step := ih (d.push (.literal text)) c
          rw [Draft.headers_push] at step
          exact step
      | tag tag =>
          rw [Header.obeyed]
          -- `passesOver` only sees headers, and a step changes these alike in every state.
          cases passed : Header.passesOver d.headers tag with
          | true =>
              rw [if_pos rfl, addTokens, addTag_passed ctx passed, pure_bind]
              exact ih d c
          | false =>
              rw [if_neg Bool.false_ne_true, addTokens, addTokens, StateT.run_bind,
                StateT.run_bind]
              have step := ih ((ctx.addTag d tag).run c).1 ((ctx.addTag d tag).run c).2
              rw [addTag_headers] at step
              exact step

/-- An else tag that is obeyed leaves the body as it is and begins the else branch; a
chained one opens a block of its own there. -/
theorem addTag_obeyed {d : Draft} {tag : Tag} {chained : Bool}
    (kind : tag.kind = .alternative chained) (h : Header.passesOver d.headers tag = false)
    (c : Compilation) :
    ∃ scope scopes, d.scopes = scope :: scopes ∧ scope.inverse = none ∧
      ((ctx.addTag d tag).run c).1 =
        { d with
          scopes :=
            (if chained then [{ tag, chained := true }] else []) ++
              { scope with inverse := some [] } :: scopes } := by
  obtain ⟨root, scopes⟩ := d
  unfold Header.passesOver at h
  rw [kind] at h
  cases scopes with
  | nil => simp [Draft.headers] at h
  | cons scope scopes =>
      have accepts : acceptsElse scope = true := by
        rw [acceptsElse_header]
        simpa [Draft.headers] using h
      have none_yet : scope.inverse = none := by
        unfold acceptsElse at accepts
        cases inverse : scope.inverse with
        | none => rfl
        | some branch => simp [inverse] at accepts
      refine ⟨scope, scopes, rfl, none_yet, ?_⟩
      unfold addTag
      rw [kind]
      simp only [beginElse, accepts, if_pos]
      cases chained <;> rfl

/-- Building passes over the else tags behind the else branch of their block as if they were
not there. Every other one begins the else branch of its block, and a chained one a block of
its own there. -/
theorem build_obeyed (tokens : List Token) :
    ctx.build tokens = ctx.build (Header.obeyed [] tokens) ∧
      ∀ before tag after chained, Header.obeyed [] tokens = before ++ .tag tag :: after →
        tag.kind = .alternative chained → ∀ c, ∃ scope scopes,
          (ctx.drafted c before).scopes = scope :: scopes ∧ scope.inverse = none ∧
            (ctx.drafted c (before ++ [.tag tag])).scopes =
              (if chained then [{ tag, chained := true }] else []) ++
                { scope with inverse := some [] } :: scopes := by
  refine ⟨?_, ?_⟩
  · funext c
    have same := addTokens_obeyed ctx {} tokens c
    change (ctx.build tokens).run c = (ctx.build (Header.obeyed [] tokens)).run c
    rw [build, build, StateT.run_bind, StateT.run_bind, ← same]
    rfl
  · intro before tag after chained split kind c
    have obeys : Header.passesOver (ctx.drafted c before).headers tag = false := by
      rw [drafted_headers]
      exact Header.obeyed_not_passesOver split
    obtain ⟨scope, scopes, here, none_yet, built⟩ :=
      addTag_obeyed ctx kind obeys ((ctx.addTokens {} before).run c).2
    refine ⟨scope, scopes, here, none_yet, ?_⟩
    rw [drafted, addTokens_append]
    exact congrArg Draft.scopes built

end BuildContext

/-- The chained else comes behind the else branch. -/
def lateElse : String :=
  "\x7b\x7b#if a\x7d\x7dA\x7b\x7belse\x7d\x7dB\x7b\x7belse if c\x7d\x7dC\x7b\x7b/if\x7d\x7d"

/-- The condition of the late else is lost, and what follows it is shown with what stands
before it; nothing is reported. -/
theorem lateElse_merges : ∃ t, (Registry.builtin.compile {} lateElse).result = .ok t ∧
    t.warnings = [] ∧
      ∀ c, (t.render { data := .object [("c", .bool c)], functions := fun _ _ => .done .null }).result =
        .ok "BC" := by
  -- A function has no decidable equality, so what is computed is compared part by part.
  have run : (match (Registry.builtin.compile {} lateElse).result with
      | .ok t =>
        t.warnings.isEmpty && [true, false].all fun c =>
          match (t.render
            { data := .object [("c", .bool c)], functions := fun _ _ => .done .null }).result with
          | .ok "BC" => true
          | _ => false
      | _ => false) = true := by decide +kernel
  split at run
  · next t compiled =>
    rw [Bool.and_eq_true, List.all_eq_true] at run
    obtain ⟨silent, renders⟩ := run
    refine ⟨t, compiled, List.isEmpty_iff.mp silent, fun c => ?_⟩
    have rendered := renders c (by cases c <;> decide)
    split at rendered
    · next output => exact output
    · cases rendered
  · cases run

end Stencil
