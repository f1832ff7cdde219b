import Stencil.Proofs.Compile.Sites
import Stencil.Render.Plan

/-!
Inverted sections.

To invert a section is to exchange its branches, whatever decides between them: a value, a value
that is called, a helper of either style or a builtin block, of which `unless` is the inversion of
`if`. The exchange is made in four ways. For a builtin block it is made when compiling and for a
helper when its branches are handed over, `unless` negates its condition, and an inverted section
about a value asks first whether the value is absent, which is when an ordinary one shows its else
branch. The branches are plans here; which plan the text of a branch becomes may depend on where it
stands.
-/

namespace Stencil

open Markup

/-! ### Blocks -/

section

variable {names : List String} {body inverse : Eval String}

variable (scene : Scene)

end

/-! ### Nodes -/

/-- Whatever renders the one node renders the other: the output or the error is the same, and so is
the machine behind it. -/
def Node.RendersAs (n n' : Node) : Prop :=
  ∀ (scene : Scene) (enter? : Option (Plan → Eval String)),
    scene.renderNode enter? n = scene.renderNode enter? n'

theorem Node.RendersAs.rfl {n : Node} : n.RendersAs n :=
  fun _ _ => Eq.refl _

/-- Blocks whose branches are exchanged, if that changes nothing for their kinds. -/
theorem Node.RendersAs.block {kind kind' : BlockKind} {a b : Plan} {names : List String}
    (h : ∀ (scene : Scene) (body inverse : Eval String),
      scene.renderBlock kind names body (some inverse) =
        scene.renderBlock kind' names inverse (some body)) :
    (Node.block kind a (some b) names).RendersAs (.block kind' b (some a) names) := by
  intro scene enter?
  rw [Scene.renderNode, Scene.renderNode]
  exact h scene _ _

namespace BuildContext

open Compiling

variable (ctx : BuildContext) {tag tag' : Tag} (a b : Plan)

end BuildContext

end Stencil
