import Stencil.Proofs.Compile.Narration
import Stencil.Proofs.Compile.Recursion

/-!
What a compile call tells of itself.

The call that tells its steps gives what the compile call gives, and its steps account for what is
reported: the errors are what is found wrong, in this order and wrapped in the names of the open
partials, and the journal names the partials that are entered. On the way the partials that were
entered are those that are open or have a plan, so no partial is entered twice, and a partial is
entered where the first reference to it is met.
-/

namespace Stencil

open Compiling Markup Narrating

/-! ### Orderly tales -/

/-- Each step fits what was told before it. -/
def Each (fits : List Step → Step → Prop) (told : List Step) : Prop :=
  ∀ before step after, told = before ++ step :: after → fits before step

theorem Each.nil (fits : List Step → Step → Prop) : Each fits [] := by
  intro before step after h
  simp at h

theorem Each.concat {fits : List Step → Step → Prop} {told : List Step} {step : Step}
    (h : Each fits told) (last : fits told step) : Each fits (told ++ [step]) := by
  intro before other after split
  rcases List.eq_nil_or_concat after with rfl | ⟨front, final, rfl⟩
  · obtain ⟨rfl, same⟩ := List.append_inj' split rfl
    cases same
    exact last
  · rw [List.concat_eq_append, ← List.cons_append, ← List.append_assoc] at split
    obtain ⟨rfl, -⟩ := List.append_inj' split rfl
    exact h before other front rfl

/-- A place inside partials that were entered; outside of all is always such a place. -/
def Opened (told : List Step) (path : List String) : Prop :=
  path = [] ∨ ∃ outer name, path = outer ++ [name] ∧ .enters outer name ∈ told

theorem Opened.mono {told told' : List Step} {path : List String} (h : Opened told path)
    (grows : told ⊆ told') : Opened told' path := by
  rcases h with rfl | ⟨outer, name, rfl, entered⟩
  · exact .inl rfl
  · exact .inr ⟨outer, name, rfl, grows entered⟩

namespace Workshop

variable (w : Workshop)

/-- A partial is entered that is registered and was not entered before: where the first reference
to it was just met, or, if there is none, outside of all partials because of a computed name. -/
structure EntersOnce (before : List Step) (path : List String) (name : String) : Prop where
  registered : (w.registry.partial? name).isSome = true
  first : name ∉ enteredNames before
  cause : (∃ earlier, before = earlier ++ [.refers path name] ∧
      ∀ other, .refers other name ∉ earlier) ∨
    (path = [] ∧ (∃ other, .computes other ∈ before) ∧ ∀ other, .refers other name ∉ before)

/-- A step takes place inside of what was entered, references lead to registered partials, and
partials are entered once. -/
def Fits (before : List Step) (step : Step) : Prop :=
  Opened before step.inside ∧
    match step with
    | .refers _ name => (w.registry.partial? name).isSome = true
    | .enters path name => w.EntersOnce before path name
    | _ => True

/-- The call has a plan of the partial. -/
def Known (c : Compilation) (name : String) : Prop :=
  if w.settings.runtimePartials then (Table.get? c.table name).isSome = true
  else (Table.get? c.embedded name).isSome = true

/-- What was told agrees with the state inside the partials `entered`, innermost first. -/
structure Records (entered : List String) (told : List Step) (c : Compilation) : Prop where
  each : Each w.Fits told
  opened : Opened told entered.reverse
  entered : ∀ name, name ∈ enteredNames told ↔ name ∈ entered ∨ w.Known c name
  once : (enteredNames told).Nodup
  referred : ∀ path name, .refers path name ∈ told → name ∈ enteredNames told
  computed : (∃ path, .computes path ∈ told) ↔ c.hasDynamic = true

/-- What is told between two states accounts for what is reported. -/
structure Accounted (entered : List String) (told more : List Step) (c c' : Compilation) :
    Prop where
  errors : c'.report.errors.map (Diagnostic.within entered.reverse) =
    c.report.errors.map (Diagnostic.within entered.reverse) ++ more.filterMap Step.complaint?
  compiled : c'.report.compiled = (enteredNames more).reverse ++ c.report.compiled
  records : w.Records entered (told ++ more) c'

/-- The first computation does what the second one does, and accounts for it. -/
def Tells {α : Type} (entered : List String) (x : Narrating α) (y : Compiling α) : Prop :=
  ∀ told c, w.Records entered told c → ∃ more,
    (x.run told).run c = (((y.run c).1, told ++ more), (y.run c).2) ∧
      w.Accounted entered told more c (y.run c).2

variable {w} {α β : Type} {entered : List String} {told more more' : List Step}
  {c c' c'' : Compilation} {name : String}

theorem Records.accounted (h : w.Records entered told c) : w.Accounted entered told [] c c :=
  ⟨(List.append_nil _).symm, rfl, by simpa using h⟩

theorem Accounted.trans (h : w.Accounted entered told more c c')
    (h' : w.Accounted entered (told ++ more) more' c' c'') :
    w.Accounted entered told (more ++ more') c c'' := by
  refine ⟨?_, ?_, ?_⟩
  · rw [h'.errors, h.errors, List.filterMap_append, List.append_assoc]
  · rw [h'.compiled, h.compiled, enteredNames, enteredNames, enteredNames, List.filterMap_append,
      List.reverse_append, List.append_assoc]
  · rw [← List.append_assoc]
    exact h'.records

namespace Tells

theorem pure (a : α) : w.Tells entered (Pure.pure a) (Pure.pure a) :=
  fun told c records => ⟨[], by rw [List.append_nil]; rfl, records.accounted⟩

theorem bind {x : Narrating α} {y : Compiling α} {f : α → Narrating β} {g : α → Compiling β}
    (h : w.Tells entered x y) (next : ∀ a, w.Tells entered (f a) (g a)) :
    w.Tells entered (x >>= f) (y >>= g) := by
  intro told c records
  obtain ⟨more, run, accounted⟩ := h told c records
  obtain ⟨more', run', accounted'⟩ := next (y.run c).1 (told ++ more) (y.run c).2 accounted.records
  refine ⟨more ++ more', ?_, accounted.trans accounted'⟩
  rw [StateT.run_bind, StateT.run_bind, run, StateT.run_bind, ← List.append_assoc]
  exact run'

end Tells

/-! ### Computations that enter no partial -/

end Workshop

namespace Compiling

variable {α β : Type}

/-- The computation adds errors, tells the journal of no partial, and leaves the store alone. -/
def Solitary (x : Compiling α) : Prop :=
  ∀ c, c.report.errors <+: (x.run c).2.report.errors ∧
    (x.run c).2.report.compiled = c.report.compiled ∧ (x.run c).2.store = c.store

namespace Solitary

theorem steady {x : Compiling α} (h : IsSteady x) : Solitary x := by
  obtain ⟨a, errors, h, -⟩ := h
  intro c
  obtain ⟨r, run, written, compiled⟩ := h c
  rw [run]
  exact ⟨⟨errors, written.symm⟩, compiled, rfl⟩

theorem pure (a : α) : Solitary (Pure.pure a) :=
  .steady (.pure a)

theorem bind {x : Compiling α} {f : α → Compiling β} (h : Solitary x)
    (next : ∀ a, Solitary (f a)) : Solitary (x >>= f) := by
  intro c
  obtain ⟨errors, compiled, store⟩ := h c
  obtain ⟨errors', compiled', store'⟩ := next (x.run c).1 (x.run c).2
  exact ⟨errors.trans errors', compiled'.trans compiled, store'.trans store⟩

theorem pushLayer : Solitary pushLayer :=
  fun _ => ⟨List.prefix_refl _, rfl, rfl⟩

theorem popLayer : Solitary popLayer :=
  fun _ => ⟨List.prefix_refl _, rfl, rfl⟩

theorem declareInline (name : String) : Solitary (declareInline name) := by
  intro c
  rw [declareInline_run]
  split
  · exact ⟨List.prefix_refl _, rfl, rfl⟩
  · split <;> exact ⟨List.prefix_refl _, rfl, rfl⟩

end Solitary

end Compiling

namespace BuildContext

variable (ctx : BuildContext)

variable {ctx} {ctx' : BuildContext} (settings : ctx'.settings = ctx.settings)
  (style : ctx'.style? = ctx.style?)

include settings style

end BuildContext

namespace Workshop

variable {w : Workshop} {α β : Type} {entered : List String} {told more more' : List Step}
  {c c' c'' : Compilation} {name : String}

/-! ### Telling what is found wrong -/

@[simp] theorem enteredNames_append (told more : List Step) :
    enteredNames (told ++ more) = enteredNames told ++ enteredNames more :=
  List.filterMap_append

@[simp] theorem enteredNames_found (path : List String) (errors : List Diagnostic) :
    enteredNames (errors.map (.found path)) = [] := by
  simp [enteredNames, List.filterMap_map, Function.comp_def, Step.entered?]

theorem each_found {path : List String} (h : Each w.Fits told) (opened : Opened told path)
    (errors : List Diagnostic) : Each w.Fits (told ++ errors.map (.found path)) := by
  induction errors generalizing told with
  | nil => simpa using h
  | cons d errors ih =>
      have first : Each w.Fits (told ++ [.found path d]) := h.concat ⟨opened, trivial⟩
      have := ih first (opened.mono (List.subset_append_left _ _))
      simpa [List.append_assoc] using this

/-- More may be told, as long as no partial is entered and the same partials have plans. -/
theorem Records.extend (h : w.Records entered told c) (each : Each w.Fits (told ++ more))
    (outside : enteredNames more = [])
    (referred : ∀ path name, .refers path name ∈ more → name ∈ enteredNames told)
    (known : ∀ name, w.Known c' name ↔ w.Known c name)
    (computed : (∃ path, .computes path ∈ told ++ more) ↔ c'.hasDynamic = true) :
    w.Records entered (told ++ more) c' := by
  have same : enteredNames (told ++ more) = enteredNames told := by
    rw [enteredNames_append, outside, List.append_nil]
  refine ⟨each, h.opened.mono (List.subset_append_left _ _), fun name => ?_, ?_, ?_, computed⟩
  · rw [same, known, h.entered]
  · rw [same]
    exact h.once
  · intro path name member
    rw [same]
    exact (List.mem_append.mp member).elim (h.referred path name) (referred path name)

theorem Known.of_store (same : c'.store = c.store) (name : String) :
    w.Known c' name ↔ w.Known c name := by
  have embedded : c'.embedded = c.embedded := congrArg Store.embedded same
  have table : c'.table = c.table := congrArg Store.table same
  rw [Known, Known, embedded, table]

/-- Errors may be told, as long as the store stays. -/
theorem Records.found (h : w.Records entered told c) (same : c'.store = c.store)
    (errors : List Diagnostic) :
    w.Records entered (told ++ errors.map (.found entered.reverse)) c' := by
  refine h.extend (each_found h.each h.opened errors) (enteredNames_found _ errors) (by simp)
    (Known.of_store same) ?_
  have dynamic : c'.hasDynamic = c.hasDynamic := congrArg Store.hasDynamic same
  rw [dynamic, ← h.computed]
  simp

namespace Tells

/-- A computation that finds nothing wrong. -/
theorem silently {x : Compiling α} (h : Solitary x)
    (quiet : ∀ c, (x.run c).2.report.errors = c.report.errors) :
    w.Tells entered (Narrating.silently x) x := by
  intro told c records
  obtain ⟨-, compiled, store⟩ := h c
  refine ⟨[], ?_, ?_, compiled, ?_⟩
  · rw [List.append_nil]
    rfl
  · rw [quiet]
    simp
  · simpa using records.found store []

end Tells

/-! ### Building -/

section

variable {ctx ctx' : BuildContext} (settings : ctx'.settings = ctx.settings)
  (style : ctx'.style? = ctx.style?)
  {resolve : (name : String) → (hasBlock : Bool) → Site → Narrating (Option Target)}
  (tells : ∀ name hasBlock site,
    w.Tells entered (resolve name hasBlock site) (ctx.resolve name hasBlock site))

include tells

include settings style

end

/-! ### Entering partials -/

/-- The steps `pre` lead to a partial that is about to be resolved, and it may be entered if it was
not before. -/
structure Leads (w : Workshop) (entered : List String) (told pre : List Step) (name : String)
    (c : Compilation) : Prop where
  records : w.Records entered told c
  each : Each w.Fits (told ++ pre)
  silent : pre.filterMap Step.complaint? = []
  outside : enteredNames pre = []
  only : ∀ path other, .refers path other ∈ pre → other = name
  static : ∀ path, .computes path ∉ pre
  enters : name ∉ enteredNames told → w.EntersOnce (told ++ pre) entered.reverse name

section

variable {pre : List Step} {compile' : Option (Narrating Plan)} {compile : Option (Compiling Plan)}

/-- A partial that was entered before needs nothing more. -/
theorem Leads.settled (h : w.Leads entered told pre name c) (before : name ∈ enteredNames told) :
    w.Accounted entered told pre c c := by
  refine ⟨?_, ?_, h.records.extend h.each h.outside ?_ (fun _ => Iff.rfl) ?_⟩
  · rw [h.silent, List.append_nil]
  · rw [h.outside]
    rfl
  · intro path other here
    rw [h.only path other here]
    exact before
  · rw [← h.records.computed]
    simp [h.static]

/-- The records with which the source of a partial is begun. -/
theorem Leads.inside (h : w.Leads entered told pre name c) (new : name ∉ enteredNames told) :
    w.Records (name :: entered) (told ++ (pre ++ [.enters entered.reverse name]))
      (enterPartial name c) := by
  have names : enteredNames (told ++ (pre ++ [.enters entered.reverse name])) =
      enteredNames told ++ [name] := by
    rw [enteredNames_append, enteredNames_append, h.outside]
    rfl
  refine ⟨?_, .inr ⟨entered.reverse, name, List.reverse_cons, by simp⟩, ?_, ?_, ?_, ?_⟩
  · rw [← List.append_assoc]
    exact h.each.concat ⟨h.records.opened.mono (List.subset_append_left _ _), h.enters new⟩
  · intro other
    rw [names, List.mem_append, List.mem_singleton, h.records.entered, List.mem_cons]
    change (other ∈ entered ∨ w.Known c other) ∨ other = name ↔
      (other = name ∨ other ∈ entered) ∨ w.Known c other
    tauto
  · rw [names]
    refine List.nodup_append.mpr ⟨h.records.once, by simp, fun other here last member => ?_⟩
    rw [List.mem_singleton.mp member]
    rintro rfl
    exact new here
  · intro path other member
    rw [names]
    simp only [List.mem_append, List.mem_singleton] at member ⊢
    rcases member with told | here | ⟨⟨⟩⟩
    · exact .inl (h.records.referred path other told)
    · exact .inr (h.only path other here)
  · change _ ↔ c.hasDynamic = true
    rw [← h.records.computed]
    have := h.static
    simp_all

/-- Behind the source of a partial, when its plan is kept. -/
theorem Leads.behind (h : w.Leads entered told pre name c)
    (inside : w.Accounted (name :: entered) (told ++ (pre ++ [.enters entered.reverse name])) more
      (enterPartial name c) c')
    (report : c''.report = (leavePartial name c.report.errors c').report)
    (dynamic : c''.hasDynamic = c'.hasDynamic)
    (kept : ∀ other, w.Known c'' other ↔ other = name ∨ w.Known c' other) :
    w.Accounted entered told (pre ++ [.enters entered.reverse name] ++ more) c c'' := by
  have within (d : Diagnostic) :
      d.within (name :: entered).reverse = (d.inPartial name).within entered.reverse := by
    rw [Diagnostic.within, Diagnostic.within, List.reverse_cons, List.foldr_append]
    rfl
  have errors := inside.errors
  rw [show (enterPartial name c).report.errors = [] from rfl, List.map_nil, List.nil_append,
    funext within] at errors
  refine ⟨?_, ?_, ?_, h.records.opened.mono (List.subset_append_left _ _), ?_, ?_, ?_, ?_⟩
  · rw [report, leavePartial, List.map_append, List.map_map, List.filterMap_append,
      List.filterMap_append, h.silent, ← errors]
    rfl
  · rw [report]
    change c'.report.compiled = _
    rw [inside.compiled, enteredNames_append, enteredNames_append, h.outside]
    simp [enteredNames, Step.entered?, enterPartial, Report.compiled, Report.addEvent,
      Event.partial?]
  · rw [← List.append_assoc]
    exact inside.records.each
  · intro other
    rw [kept, ← List.append_assoc, inside.records.entered, List.mem_cons]
    tauto
  · rw [← List.append_assoc]
    exact inside.records.once
  · rw [← List.append_assoc]
    exact inside.records.referred
  · rw [dynamic, ← List.append_assoc]
    exact inside.records.computed

/-- A partial that was not entered before is entered; `c''` is any state in which its plan is
kept. -/
theorem Leads.enter (h : w.Leads entered told pre name c) (new : name ∉ enteredNames told)
    {action' : Narrating Plan} {action : Compiling Plan}
    (tells : w.Tells (name :: entered) action' action) :
    let result := action.run (enterPartial name c)
    ∃ more, (action'.run (told ++ pre ++ [.enters entered.reverse name])).run
        (enterPartial name c) = ((result.1, told ++ more), result.2) ∧
      name ∈ enteredNames (told ++ more) ∧
        ∀ c'' : Compilation, c''.report = (leavePartial name c.report.errors result.2).report →
          c''.hasDynamic = result.2.hasDynamic →
            (∀ other, w.Known c'' other ↔ other = name ∨ w.Known result.2 other) →
              w.Accounted entered told more c c'' := by
  intro result
  obtain ⟨more, run, inside⟩ := tells _ (enterPartial name c) (h.inside new)
  refine ⟨pre ++ [.enters entered.reverse name] ++ more, ?_, ?_, fun c'' => h.behind inside⟩
  · rw [List.append_assoc told pre, run]
    simp only [List.append_assoc, result]
  · simp [enteredNames, Step.entered?]

/-! ### Resolving -/

/-- The computations resolve a partial that the steps `pre` lead to, and behind them the partial
was entered. -/
def Settles {α : Type} (w : Workshop) (entered : List String) (told pre : List Step) (name : String)
    (c : Compilation) (x : Narrating α) (y : Compiling α) : Prop :=
  ∃ more, (x.run (told ++ pre)).run c = (((y.run c).1, told ++ more), (y.run c).2) ∧
    w.Accounted entered told more c (y.run c).2 ∧ name ∈ enteredNames (told ++ more)

section

end

end

/-- A reference that was just met leads to its partial. -/
theorem Records.refers (h : w.Records entered told c)
    (registered : (w.registry.partial? name).isSome = true) :
    w.Leads entered told [.refers entered.reverse name] name c where
  records := h
  each := h.each.concat ⟨h.opened, registered⟩
  silent := rfl
  outside := rfl
  only := by
    intro path other member
    cases List.mem_singleton.mp member
    rfl
  static := by simp
  enters new := by
    refine ⟨registered, ?_, .inl ⟨told, rfl, fun other member => ?_⟩⟩
    · rw [enteredNames_append]
      simpa [enteredNames, Step.entered?] using new
    · exact new (h.referred other name member)

/-- Without a reference, a computed name leads to every registered partial. -/
theorem Records.sweeps (h : w.Records [] told c)
    (registered : (w.registry.partial? name).isSome = true) (dynamic : c.hasDynamic = true) :
    w.Leads [] told [] name c where
  records := h
  each := by simpa using h.each
  silent := rfl
  outside := rfl
  only := nofun
  static := nofun
  enters new := by
    rw [List.append_nil]
    exact ⟨registered, new, .inr ⟨rfl, h.computed.mpr dynamic,
      fun other member => new (h.referred other name member)⟩⟩

theorem Settles.bind {α β : Type} {pre : List Step} {x : Narrating α} {y : Compiling α}
    {f : α → Narrating β} {g : α → Compiling β} (h : w.Settles entered told pre name c x y)
    (next : ∀ a, w.Tells entered (f a) (g a)) :
    w.Settles entered told pre name c (x >>= f) (y >>= g) := by
  obtain ⟨more, run, accounted, here⟩ := h
  obtain ⟨more', run', accounted'⟩ := next (y.run c).1 (told ++ more) (y.run c).2 accounted.records
  refine ⟨more ++ more', ?_, accounted.trans accounted', ?_⟩
  · rw [StateT.run_bind, StateT.run_bind, run, StateT.run_bind, ← List.append_assoc]
    exact run'
  · rw [← List.append_assoc, enteredNames_append]
    exact List.mem_append_left _ here

/-- Putting a copy into the table as well. -/
theorem Tells.tabulate (embeds : w.settings.runtimePartials = false) (plan : Plan) :
    w.Tells entered
      (Narrating.silently (modify fun c => { c with table := Table.insert c.table name plan }))
      (modify fun c => { c with table := Table.insert c.table name plan }) := by
  intro told c records
  refine ⟨[], by rw [List.append_nil]; rfl, (List.append_nil _).symm, rfl, ?_⟩
  refine records.extend ?_ rfl (by simp) (fun name => ?_) ?_
  · rw [List.append_nil]
    exact records.each
  · rw [Known, Known, if_neg (by simp [embeds]), if_neg (by simp [embeds])]
    rfl
  · rw [List.append_nil]
    exact records.computed

end Workshop

namespace Registry

end Registry

end Stencil
