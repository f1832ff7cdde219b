import Stencil.Proofs.Compile.Upkeep
import Stencil.Proofs.Render.Nesting

/-!
Where the texts of plans come from.

The plan of a source writes the texts of its tokens, encodes what it interpolates, and calls no
helper for a block, as long as its tokens are like that. The plans that a compile call keeps come
from the sources of the partials that it compiles, each from its own. So an invariant that is
upheld by the tokens of all these sources is upheld by every plan that the call makes.
-/

namespace Stencil

open Compiling Markup

/-! ### Tokens that uphold an invariant -/

/-- The name that a tag calls for a block. -/
def Markup.Tag.blockHead? (tag : Tag) : Option String :=
  match tag.kind with
  | .opening _ => some tag.content.head
  | .alternative true => some tag.content.head
  | .rawBlock _ => some tag.content.head
  | _ => none

/-- What a tag brings into a plan is encoded or allowed as it is, and no helper is called for a
block. -/
structure Markup.Tag.Upholds (I : Invariant) (isHelper : String → Bool) (tag : Tag) : Prop where
  encoded : tag.kind ≠ .interpolation true
  valued : ∀ name ∈ tag.blockHead?, isHelper name = false
  body : ∀ text, tag.kind = .rawBlock text → I.text text
  indented : ∀ s, I.text s → I.text (indentLines tag.indent s)

def Markup.Token.Upholds (I : Invariant) (isHelper : String → Bool) : Token → Prop
  | .text s => I.text s
  | .tag t => t.Upholds I isHelper

variable {I : Invariant}

theorem Node.upholds_block {kind : BlockKind} {body : Plan} {inverse : Option Plan}
    {params : List String} (hk : kind.Upholds I) (hb : Node.AllUphold I body)
    (hi : ∀ plan ∈ inverse, Node.AllUphold I plan) :
    (Node.block kind body inverse params).Upholds I := by
  cases inverse with
  | none =>
      simp only [Node.Upholds]
      exact ⟨hk, hb⟩
  | some inverse =>
      simp only [Node.Upholds]
      exact ⟨hk, hb, hi inverse rfl⟩

theorem Node.upholds_inclusion {call : Inclusion} {target : Target} {block : Option Plan}
    (indented : ∀ s, I.text s → I.text (indentLines call.indent s)) (ht : target.Upholds I)
    (hb : ∀ plan ∈ block, Node.AllUphold I plan) :
    (Node.inclusion call target block).Upholds I := by
  cases block with
  | none =>
      simp only [Node.Upholds]
      exact ⟨indented, ht⟩
  | some block =>
      simp only [Node.Upholds]
      exact ⟨indented, ht, hb block rfl⟩

/-! ### Nodes -/

theorem Builtin.open?_upholds (I : Invariant) {content : Content}
    {openBlock : Site → StateM Report BlockKind} (h : open? content = some openBlock)
    (site : Site) : Gives (reporting (openBlock site)) (BlockKind.Upholds I) := by
  refine fun c => ⟨rfl, ?_⟩
  unfold open? at h
  repeat' split at h
  all_goals cases h
  all_goals trivial

namespace BuildContext

variable {ctx : BuildContext} {tag : Tag}

/-- A tag calls a helper, or a path with arguments. -/
theorem callee?_gives (ctx : BuildContext) (tag : Tag) :
    Gives (ctx.callee? tag) fun found => ∀ callee style, found = some (callee, style) →
      ctx.isHelper tag.content.head = true ∨
        (∃ p, callee = .path p) ∧ style = .rendering ∧
          (tag.content.params ≠ [] ∨ tag.content.hash ≠ []) := by
  unfold callee?
  split
  · next style known =>
    refine .pure fun _ _ _ => .inl ?_
    rw [isHelper, known]
    rfl
  split
  · refine .pure ?_
    rintro _ _ ⟨⟩
  · next arguments =>
    have given : tag.content.params ≠ [] ∨ tag.content.hash ≠ [] := by
      simpa [imp_iff_not_or] using arguments
    have result (p : Path) : ∀ callee style,
        some (Callee.path p, HelperStyle.rendering) = some (callee, style) →
          ctx.isHelper tag.content.head = true ∨ (∃ p, callee = .path p) ∧ style = .rendering ∧
            (tag.content.params ≠ [] ∨ tag.content.hash ≠ []) := by
      rintro _ _ ⟨⟩
      exact .inr ⟨⟨p, rfl⟩, rfl, given⟩
    split
    · exact .steady_bind (.addError rfl) fun _ => .steady_bind (headPath_steady tag) fun p =>
        .pure (result p)
    · exact .steady_bind (headPath_steady tag) fun p => .pure (result p)

theorem interpolation_upholds
    (encoded : ∀ v, I.value v → I.text (v.output ctx.settings.encoding)) (tag : Tag) :
    Gives (ctx.interpolation tag false) fun node => ∀ n ∈ node, n.Upholds I := by
  unfold interpolation
  split
  · exact .steady_bind (.addError rfl) fun _ => .pure nofun
  · refine .steady_bind (callee?_steady ctx tag) fun callee => ?_
    split
    · refine .steady_bind (.count _) fun _ => .pure ?_
      rintro _ ⟨rfl⟩
      simp only [Node.Upholds]
      exact encoded
    · refine .steady_bind (headExpr_steady ctx tag) fun e => .pure ?_
      rintro _ ⟨rfl⟩
      simp only [Node.Upholds]
      exact encoded

theorem block_upholds (inert : ∀ id, ¬I.value (.callable id))
    (valued : ctx.isHelper tag.content.head = false) {body : Plan} (hb : Node.AllUphold I body)
    {inverse : Option Plan} (hi : ∀ plan ∈ inverse, Node.AllUphold I plan) (inverted : Bool) :
    Gives (ctx.block tag body inverse inverted) (Node.Upholds I) := by
  unfold block
  simp only
  split
  · next openBlock found =>
    refine .bind (Builtin.open?_upholds I found tag.site) fun kind hk => ?_
    split
    · refine .pure (Node.upholds_block hk ?_ ?_)
      · cases inverse with
        | none => simp only [Option.getD_none, Node.AllUphold]
        | some inverse => exact hi inverse rfl
      · rintro _ ⟨rfl⟩
        exact hb
    · exact .pure (Node.upholds_block hk hb hi)
  · refine .bind (callee?_gives ctx tag) fun found known => ?_
    split
    · next callee style =>
      refine .steady_bind (.count _) fun _ => .pure (Node.upholds_block ?_ hb hi)
      rcases known callee style rfl with helper | ⟨path, rfl, arguments⟩
      · rw [valued] at helper
        cases helper
      · exact .inr ⟨path, arguments, inert⟩
    · refine .steady_bind (headExpr_steady ctx tag) fun e => .pure (Node.upholds_block ?_ hb hi)
      rintro ⟨id, callable⟩
      exact absurd callable (inert id)

theorem rawBlock_upholds (valued : ctx.isHelper tag.content.head = false) {body : String}
    (text : I.text body) : Gives (ctx.rawBlock tag body) (Node.Upholds I) := by
  rw [isHelper, Option.isSome_eq_false_iff, Option.isNone_iff_eq_none] at valued
  unfold rawBlock
  rw [valued]
  refine .pure ?_
  simpa only [Node.Upholds] using text

end BuildContext

/-! ### Sources -/

theorem Node.allUphold_iff_all {plan : Plan} :
    Node.AllUphold I plan ↔ Plan.All (Node.Upholds I) plan :=
  Node.allUphold_iff

theorem Markup.Token.suits_iff {isHelper : String → Bool} {token : Token} :
    token.Suits (Node.Upholds I) (Tag.Upholds I isHelper) ↔ token.Upholds I isHelper := by
  cases token with
  | text s => simp only [Token.Suits, Token.Upholds, Node.Upholds]
  | tag t => rfl

section

variable (inert : ∀ id, ¬I.value (.callable id))

include inert

/-- The builder makes nodes that uphold the invariant of tags that do. -/
theorem BuildContext.upkeep_upholds (ctx : BuildContext) {tidy : String → Prop}
    (encoded : ∀ v, I.value v → I.text (v.output ctx.settings.encoding)) :
    ctx.Upkeep tidy (Node.Upholds I) (Tag.Upholds I ctx.isHelper) where
  joined s t := by
    simp only [Node.Upholds]
    exact I.append s t
  inlineDef name plan all := by
    simp only [Node.Upholds]
    exact Node.allUphold_iff_all.mpr all
  interpolation tag raw kind := by
    refine .steady (interpolation_steady ctx tag raw) fun c ht => ?_
    cases raw with
    | true => exact absurd kind ht.encoded
    | false => exact (interpolation_upholds encoded tag c).2
  block tag starts body inverse inverted := by
    refine .steady (block_steady ctx _ _ _ _) fun c ht hb hi => ?_
    have valued : ctx.isHelper tag.content.head = false := by
      refine ht.valued _ ?_
      rcases starts with ⟨other, kind⟩ | kind <;> rw [Tag.blockHead?, kind] <;> rfl
    refine (block_upholds inert valued (Node.allUphold_iff_all.mpr hb) ?_ inverted c).2
    exact fun plan member => Node.allUphold_iff_all.mpr (hi plan member)
  rawBlock tag body kind := by
    refine .steady (rawBlock_steady ctx tag body) fun c ht => ?_
    refine (rawBlock_upholds (ht.valued _ ?_) (ht.body body kind) c).2
    rw [Tag.blockHead?, kind]
    rfl
  inclusion tag name kind ht shown target block fits hb := by
    refine Node.upholds_inclusion ht.indented ?_ fun plan member =>
      Node.allUphold_iff_all.mpr (hb plan member)
    cases target with
    | embedded plan =>
        simp only [Target.Upholds]
        exact Node.allUphold_iff_all.mpr fits
    | _ => simp only [Target.Upholds]

namespace Workshop

/-- The tokens of the source uphold the invariant. -/
def Tidy (w : Workshop) (I : Invariant) (source : String) : Prop :=
  ∀ t ∈ w.registry.tokensOf w.settings source, t.Upholds I w.registry.hasHelper

/-- The source of the partial is tidy. -/
def TidyPartial (w : Workshop) (I : Invariant) (name : String) : Prop :=
  ∀ text ∈ w.registry.partial? name, w.Tidy I text

theorem upkeep_upholds (w : Workshop)
    (encoded : ∀ v, I.value v → I.text (v.output w.settings.encoding)) :
    w.Upkeep (w.Tidy I) (Node.Upholds I) (Tag.Upholds I w.registry.hasHelper) where
  reads source := by
    refine .steady (.reporting (readTemplate_steady _ _ _)) fun c tidy token member => ?_
    obtain ⟨r, errors, -, -, run⟩ := readTemplate_run w source c
    rw [run] at member
    exact Token.suits_iff.mpr (tidy token member)
  builds entered available := (w.builder entered available).upkeep_upholds inert encoded

end Workshop

end

namespace Registry

/-- The plans of a template uphold an invariant that the tokens of all its sources uphold. -/
theorem compile_upholds {registry : Registry} {settings : Settings} {source : String}
    (inert : ∀ id, ¬I.value (.callable id))
    (encoded : ∀ v, I.value v → I.text (v.output settings.encoding)) :
    let w : Workshop := { settings, registry }
    w.Tidy I source → (∀ name ∈ registry.compiledPartials settings source, w.TidyPartial I name) →
      ∀ template, (registry.compile settings source).result = .ok template →
        template.Upholds I := by
  intro w tidy partials template compiled
  obtain ⟨clean, plan, table, -⟩ := of_compile compiled
  rw [Template.Upholds, plan, table]
  have upkeep : w.Upkeep (w.Tidy I) (Node.Upholds I) (Tag.Upholds I w.registry.hasHelper) :=
    w.upkeep_upholds inert encoded
  obtain ⟨root, kept⟩ := w.compileTemplate_keeps upkeep tidy clean fun name member => partials name
    (by rw [compiledPartials_eq, List.mem_reverse]; exact member)
  exact ⟨Node.allUphold_iff_all.mpr root, fun e member =>
    Node.allUphold_iff_all.mpr (kept e member)⟩

end Registry

end Stencil
