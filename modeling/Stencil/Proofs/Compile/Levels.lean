import Stencil.Proofs.Compile.Sources

/-!
How deep compiling goes.

Compiling enters a partial inside other partials, each of which it has entered once. So
it is never deeper than there are registered partials: what would be done further down does
not matter, because it is never done.
-/

namespace Stencil

open Compiling Markup

namespace Workshop

variable (w : Workshop)

/-- Compiles a source with `levels` levels for the source and the partials inside it; what is
further down is replaced by `stuck`. -/
def sourceWithin (stuck : Compiling Plan) : (levels : Nat) → (entered : List String) →
    (source : String) → Compiling Plan
  | 0, _, _ => stuck
  | levels + 1, entered, source => do
    let tokens ← reporting (Markup.readTemplate w.settings w.registry.hasHelper source)
    let ctx : BuildContext :=
      { settings := w.settings
        style? := w.registry.style?
        resolve := fun name hasBlock site =>
          w.resolve entered name hasBlock site
            ((w.registry.partial? name).map (sourceWithin stuck levels (name :: entered))) }
    ctx.build tokens

variable {w} {entered : List String} {name : String}

/-- How an open partial would be compiled does not matter. -/
theorem resolve_open (member : name ∈ entered) (hasBlock : Bool) (site : Site)
    (compile compile' : Option (Compiling Plan)) :
    w.resolve entered name hasBlock site compile = w.resolve entered name hasBlock site compile' := by
  funext c
  change (w.resolve entered name hasBlock site compile).run c =
    (w.resolve entered name hasBlock site compile').run c
  rw [resolve_run, resolve_run, tabulate_run_known entered name compile (.inl member),
    tabulate_run_known entered name compile' (.inl member), embed_run_open entered name member,
    embed_run_open entered name member]

/-- There are enough levels when there is one more than partials that may be entered. -/
theorem sourceWithin_eq (stuck : Compiling Plan) {levels : Nat} {available : Table String}
    (given : w.Available entered available) (enough : available.length < levels) (source : String) :
    w.sourceWithin stuck levels entered source = w.compileSource entered available source := by
  induction levels generalizing entered available source with
  | zero => omega
  | succ levels ih =>
      have resolves (name : String) (hasBlock : Bool) (site : Site) :
          w.resolve entered name hasBlock site
              ((w.registry.partial? name).map (w.sourceWithin stuck levels (name :: entered))) =
            w.resolve entered name hasBlock site (w.inner entered available name) := by
        by_cases member : name ∈ entered
        · exact resolve_open member hasBlock site _ _
        · congr 1
          rw [given.inner_eq member]
          cases registered : w.registry.partial? name with
          | none => rfl
          | some text =>
              have shorter := Table.length_erase_lt ((given name member).trans registered)
              rw [Option.map_some, Option.map_some, ih (given.enter name) (by omega)]
      rw [sourceWithin, compileSource_eq]
      simp only [resolves]
      rfl

/-- A template and the partials in it are compiled with no more levels than there are
partials, and one for the template. -/
theorem compile_within (w : Workshop) (stuck : Compiling Plan) (source : String) :
    w.compileSource [] w.registry.partials source =
        w.sourceWithin stuck (w.registry.partials.length + 1) [] source ∧
      ∀ name, w.compileNamed name = (w.registry.partial? name).map
        (w.sourceWithin stuck w.registry.partials.length [name]) := by
  have given := Available.start w
  refine ⟨(sourceWithin_eq stuck given (by omega) source).symm, fun name => ?_⟩
  rw [compileNamed]
  cases registered : w.registry.partial? name with
  | none => rfl
  | some text =>
      rw [Option.map_some, Option.map_some,
        sourceWithin_eq stuck (given.enter name) (Table.length_erase_lt registered)]

end Workshop

end Stencil
