import Mathlib.Data.List.Chain
import Mathlib.Logic.Relation
import Stencil.Proofs.Compile.Passing

/-!
Which partials a source includes.

A source includes the registered partials that its tags name. These inclusions are the
edges of a graph; a partial that is reached from itself would be copied into its own
plan without end. While a partial is compiled, the partials that are open are a path in the
graph, and the chain that is reported closes a part of that path to a cycle.
-/

namespace Stencil

open Markup

/-! ### The tags of a source -/

namespace Markup

variable {s : Settings} {tag : Tag}

theorem of_mem_placeFrom {before items : List Item}
    (h : .tag tag ∈ placeFrom s before items) : ∃ raw read front after,
      items = front ++ .tag raw read :: after ∧ tag =
        { read with indent := String.ofList (indentBefore s (front.reverse ++ before) read after) } := by
  induction items generalizing before with
  | nil => cases h
  | cons item after ih =>
      rw [placeFrom] at h
      rcases List.mem_cons.mp h with here | later
      · cases item with
        | text t => cases here
        | tag raw read =>
            cases here
            exact ⟨raw, read, [], after, rfl, rfl⟩
      · obtain ⟨raw, read, front, rest, rfl, same⟩ := ih later
        exact ⟨raw, read, item :: front, rest, rfl, by simpa using same⟩

/-- A tag of a source is one that was read, with the indentation before it. -/
theorem of_mem_layout {items : List Item} (h : .tag tag ∈ layout s items) :
    ∃ raw read before after, items = before.reverse ++ .tag raw read :: after ∧
      tag = { read with indent := String.ofList (indentBefore s before read after) } := by
  obtain ⟨placed, member, given⟩ := List.mem_filterMap.mp h
  cases placed with
  | text run =>
      rw [Placed.token?] at given
      split at given <;> cases given
  | tag t =>
      cases given
      obtain ⟨raw, read, front, after, rfl, same⟩ := of_mem_placeFrom member
      exact ⟨raw, read, front.reverse, after, by rw [List.reverse_reverse], by simpa using same⟩

end Markup

/-! ### The graph of inclusions -/

namespace Registry

variable (registry : Registry) (settings : Settings)

/-- The tokens of a source. -/
def tokensOf (source : String) : List Token :=
  ((Markup.readTemplate settings registry.hasHelper source).run {}).1

/-- A source includes a registered partial by its name. -/
def Refers (source name : String) : Prop :=
  name ≠ "@partial-block" ∧ (registry.partial? name).isSome = true ∧
    ∃ tag, .tag tag ∈ registry.tokensOf settings source ∧ tag.included? = some (.static name)

/-- The source of one registered partial includes the other. -/
def Includes (name other : String) : Prop :=
  ∃ source, registry.partial? name = some source ∧ registry.Refers settings source other

/-- A source leads to a partial, through other partials or at once. -/
def Reaches (source name : String) : Prop :=
  ∃ first, registry.Refers settings source first ∧
    Relation.ReflTransGen (registry.Includes settings) first name

/-- A source leaves the name of a partial to be computed when rendering. -/
def Computes (source : String) : Prop :=
  ∃ tag e, .tag tag ∈ registry.tokensOf settings source ∧ tag.included? = some (.dynamic e)

/-- The name of a partial is computed in a source or in a partial that it leads to. -/
def ComputesWithin (source : String) : Prop :=
  registry.Computes settings source ∨ ∃ name text, registry.Reaches settings source name ∧
    registry.partial? name = some text ∧ registry.Computes settings text

/-- A partial includes itself, through others or at once. -/
def Recursive (name : String) : Prop :=
  Relation.TransGen (registry.Includes settings) name name

/-- A chain of partials of which each includes the next, and the last is the first. -/
structure IsCycle (chain : List String) : Prop where
  long : 2 ≤ chain.length
  closed : chain.head? = chain.getLast?
  includes : chain.IsChain (registry.Includes settings)

end Registry

namespace Registry

variable {registry : Registry} {settings : Settings}

theorem transGen_of_isChain {name : String} {chain : List String} (nonempty : chain ≠ [])
    (h : (name :: chain).IsChain (registry.Includes settings)) :
    Relation.TransGen (registry.Includes settings) name (chain.getLast nonempty) := by
  induction chain generalizing name with
  | nil => exact absurd rfl nonempty
  | cons other chain ih =>
      obtain ⟨first, rest⟩ := List.isChain_cons_cons.mp h
      cases chain with
      | nil => exact .single first
      | cons next chain =>
          rw [List.getLast_cons (List.cons_ne_nil next chain)]
          exact .head first (ih (List.cons_ne_nil next chain) rest)

/-- The first partial of a cycle includes itself. -/
theorem IsCycle.recursive {chain : List String} (h : registry.IsCycle settings chain) :
    ∃ name ∈ chain, registry.Recursive settings name := by
  obtain ⟨long, closed, includes⟩ := h
  match chain, long with
  | name :: other :: rest, _ =>
      refine ⟨name, .head _, ?_⟩
      have path := transGen_of_isChain (List.cons_ne_nil other rest) includes
      rw [List.head?_cons, List.getLast?_cons_cons,
        List.getLast?_eq_some_getLast (List.cons_ne_nil other rest)] at closed
      rwa [← Option.some.inj closed] at path

/-- Nothing that can be counted down to the end is reached from itself. -/
theorem not_recursive_of_acc {name : String}
    (h : Acc (fun other name => registry.Includes settings name other) name) :
    ¬registry.Recursive settings name := by
  induction h with
  | intro name _ ih =>
      intro cycle
      obtain ⟨other, first, rest⟩ := Relation.TransGen.head'_iff.mp cycle
      exact ih other first (Relation.TransGen.tail' rest first)

theorem acc_of_reaches {name other : String}
    (h : Acc (fun other name => registry.Includes settings name other) name)
    (path : Relation.ReflTransGen (registry.Includes settings) name other) :
    Acc (fun other name => registry.Includes settings name other) other := by
  induction path with
  | refl => exact h
  | tail _ step ih => exact ih.inv step

end Registry

/-! ### Open partials -/

namespace Workshop

variable {registry : Registry} {settings : Settings}

/-- The chain that is reported when an open partial is included again. -/
def reported (entered : List String) (name : String) : List String :=
  name :: (entered.takeWhile (· != name)).reverse ++ [name]

theorem mem_reported {entered : List String} {name other : String} (member : name ∈ entered)
    (h : other ∈ reported entered name) : other ∈ entered := by
  simp only [reported, List.cons_append, List.mem_cons, List.mem_append, List.mem_reverse,
    List.not_mem_nil, or_false] at h
  rcases h with rfl | inside | rfl
  · exact member
  · exact (List.takeWhile_prefix _).mem inside
  · exact member

theorem exists_takeWhile_append {entered : List String} {name : String} (member : name ∈ entered) :
    entered.takeWhile (· != name) ++ [name] <+: entered := by
  induction entered with
  | nil => cases member
  | cons innermost entered ih =>
      by_cases same : innermost = name
      · subst same
        simp
      · have outer := ih ((List.mem_cons.mp member).resolve_left (Ne.symm same))
        rw [List.takeWhile_cons_of_pos (by simpa using same), List.cons_append]
        exact (List.prefix_cons_inj innermost).mpr outer

/-- The open partials from the innermost one back to a partial that the innermost one
includes, read from the outside, are a cycle. -/
theorem isCycle_reported {entered : List String} {name : String} (member : name ∈ entered)
    (path : entered.IsChain fun inner outer => registry.Includes settings outer inner)
    (closes : ∀ innermost ∈ entered.head?, registry.Includes settings innermost name) :
    registry.IsCycle settings (reported entered name) := by
  obtain ⟨rest, whole⟩ := exists_takeWhile_append member
  -- `entered` has the innermost partial first, the chain the outermost one.
  have reversed : reported entered name =
      (entered.takeWhile (· != name) ++ [name]).reverse ++ [name] := by simp [reported]
  have closed : (reported entered name).head? = (reported entered name).getLast? := by
    rw [reported, List.getLast?_concat]
    rfl
  refine ⟨by simp [reported], closed, ?_⟩
  rw [reversed, List.isChain_append, List.isChain_reverse]
  refine ⟨ List.IsChain.prefix path ⟨rest, whole⟩, List.isChain_singleton name, ?_⟩
  rintro innermost last _ ⟨rfl⟩
  rw [List.getLast?_reverse] at last
  refine closes innermost ?_
  rw [← whole, List.head?_append_of_ne_nil _ (by simp)]
  exact last

end Workshop

end Stencil
