import Stencil.Proofs.Compile.Upkeep

/-!
What reading finds.

A compile call that ends without errors has read everything without errors. So what is known of the
results of a reader where it does not complain is known of all that such a call reads.
-/

namespace Stencil

/-- If no error is reported in the end, none was before, and the result is as `p` says. -/
abbrev Report.Finds {α : Type} (x : StateM Report α) (p : α → Prop) : Prop :=
  Preserves (fun r => r.errors = []) (fun _ => True) x p

theorem Report.Finds.steady {α : Type} {x : StateM Report α} (h : Steady x) :
    Report.Finds x fun _ => True := by
  intro r last
  exact ⟨List.prefix_nil.mp (last ▸ h.errors_extend r), fun _ => ⟨trivial, trivial⟩⟩

theorem Report.Finds.addError {d : Diagnostic} :
    Report.Finds (modify (Report.addError d)) fun _ => False :=
  fun _ last => absurd last (List.append_ne_nil_of_right_ne_nil _ (List.cons_ne_nil _ _))

namespace Reading

/-- If no error is reported in the end, none was before, and a result is as `p` says. -/
abbrev Finds {α : Type} (x : Reading α) (p : α → Prop) : Prop :=
  Report.Finds x.run fun outcome => ∀ a, outcome = .ok a → p a

namespace Finds

variable {α β : Type} {x : Reading α} {p : α → Prop}

theorem pure {a : α} (h : p a) : Finds (Pure.pure a) p := by
  refine Preserves.pure ?_
  rintro _ ⟨⟩
  exact h

theorem throw (d : Diagnostic) : Finds (throw d : Reading α) p :=
  Preserves.pure nofun

theorem bind {f : α → Reading β} {q : β → Prop} (h : Finds x p)
    (next : ∀ a, Finds (f a) fun b => p a → q b) : Finds (x >>= f) q := by
  show Report.Finds (x.run >>= ExceptT.bindCont f) _
  refine Preserves.bind h fun outcome => ?_
  cases outcome with
  | ok a => exact Preserves.weaken (next a) fun _ found first b same => found b same (first a rfl)
  | error d => exact Preserves.pure nofun

theorem weaken {q : α → Prop} (h : Finds x p) (imp : ∀ a, p a → q a) : Finds x q :=
  Preserves.weaken h fun _ found a same => imp a (found a same)

theorem steady (h : IsSteady x) : Finds x fun _ => True :=
  Preserves.weaken (Report.Finds.steady h.1) fun _ _ _ _ => trivial

theorem addError (d : Diagnostic) : Finds (Reading.addError d) fun _ => False :=
  fun _ last => absurd last (List.append_ne_nil_of_right_ne_nil _ (List.cons_ne_nil _ _))

end Finds

end Reading

namespace Markup

open Reading (Finds)

theorem orReport_finds {α : Type} {x : Reading α} {p : α → Prop} (h : Finds x p) (default : α) :
    Report.Finds (orReport default x) p := by
  refine Preserves.bind h fun outcome => ?_
  cases outcome with
  | ok a => exact .pure fun found => found a rfl
  | error d => exact .bind Report.Finds.addError fun _ => .pure fun never => never.elim

end Markup

namespace Compiling.Maintains

variable {α : Type} {tidy : String → Prop} {P : Node → Prop} {p : α → Prop}

theorem reporting {x : StateM Report α} (h : Report.Finds x p) (steady : Steady x) :
    Maintains tidy P (reporting x) p := by
  obtain ⟨a, errors, run, -⟩ := steady
  intro c last
  obtain ⟨before, result⟩ := h c.report last.errors
  refine ⟨⟨before, ?_⟩, fun keeps => ⟨⟨keeps.embedded, keeps.table⟩, (result trivial).2⟩⟩
  rw [← (run c.report).2.2]
  exact last.compiled

theorem addError (d : Diagnostic) : Maintains tidy P (addError d) fun _ => False :=
  fun _ last =>
    absurd last.errors (List.append_ne_nil_of_right_ne_nil _ (List.cons_ne_nil _ _))

theorem readOr {x : Reading α} (h : x.Finds p) (steady : x.IsSteady) (default : α) :
    Maintains tidy P (readOr default x) p := by
  refine .bind (Maintains.reporting h steady.1) fun outcome => ?_
  cases outcome with
  | ok a => exact .pure fun found => found a rfl
  | error d => exact .bind (Maintains.addError d) fun _ => .pure fun never => never.elim

end Compiling.Maintains

end Stencil
