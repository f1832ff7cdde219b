import Stencil.Markup.Nesting
import Stencil.Plan.Builtin

/-!
Reading does not look at the report.

Everything that reads a template or a part of a tag writes to the report
and never asks what is in it. So it gives one result from every report, and
always adds the same errors behind those that are there. None of these says
that partials include each other, and the journal is never told that a partial
is compiled: that happens only where a partial is resolved.
-/

namespace Stencil

/-- The chain of partials that a diagnostic complains about, in whatever source it
was found. -/
def Diagnostic.chain? : Diagnostic → Option (List String)
  | .recursivePartial chain => some chain
  | .inPartial _ cause => cause.chain?
  | _ => none

/-- The diagnostic does not complain about partials that include each other. -/
def Diagnostic.IsPlain (d : Diagnostic) : Prop :=
  d.chain? = none

/-- The partial whose source is about to be compiled. -/
def Event.partial? : Event → Option String
  | .compilingPartial name => some name
  | _ => none

/-- The partials whose sources are compiled according to the journal, latest first. -/
def Report.compiled (r : Report) : List String :=
  r.events.filterMap Event.partial?

/-- The computation gives one result and adds the same errors, whatever the report. The journal
is not told that a partial is compiled. -/
def Steady {α : Type} (action : StateM Report α) : Prop :=
  ∃ a errors, (∀ r, (action.run r).1 = a ∧ (action.run r).2.errors = r.errors ++ errors ∧
    (action.run r).2.compiled = r.compiled) ∧ ∀ d ∈ errors, d.IsPlain

variable {α β : Type}

namespace Steady

theorem pure (a : α) : Steady (Pure.pure a) :=
  ⟨a, [], fun r => ⟨rfl, (List.append_nil r.errors).symm, rfl⟩, nofun⟩

/-- What comes second may rely on the result of what comes first. -/
theorem bind_of {x : StateM Report α} {f : α → StateM Report β} (h : Steady x)
    (next : ∀ a, (∀ r, (x.run r).1 = a) → Steady (f a)) : Steady (x >>= f) := by
  obtain ⟨a, errors, first, plain⟩ := h
  obtain ⟨b, more, second, plain'⟩ := next a fun r => (first r).1
  refine ⟨b, errors ++ more, fun r => ?_, List.forall_mem_append.mpr ⟨plain, plain'⟩⟩
  obtain ⟨result, written, compiled⟩ := first r
  change ((f (x.run r).1).run (x.run r).2).1 = b ∧
    ((f (x.run r).1).run (x.run r).2).2.errors = r.errors ++ (errors ++ more) ∧
      ((f (x.run r).1).run (x.run r).2).2.compiled = r.compiled
  obtain ⟨result', written', compiled'⟩ := second (x.run r).2
  rw [result, written', written, List.append_assoc]
  exact ⟨result', rfl, compiled'.trans compiled⟩

theorem bind {x : StateM Report α} {f : α → StateM Report β} (h : Steady x)
    (next : ∀ a, Steady (f a)) : Steady (x >>= f) :=
  h.bind_of fun a _ => next a

theorem writes {f : Report → Report} (errors : List Diagnostic)
    (h : ∀ r, (f r).errors = r.errors ++ errors) (quiet : ∀ r, (f r).compiled = r.compiled)
    (plain : ∀ d ∈ errors, d.IsPlain) : Steady (modify f : StateM Report Unit) :=
  ⟨(), errors, fun r => ⟨rfl, h r, quiet r⟩, plain⟩

theorem addError {d : Diagnostic} (plain : d.IsPlain) : Steady (modify (Report.addError d)) :=
  .writes [d] (fun _ => rfl) (fun _ => rfl) (List.forall_mem_singleton.mpr plain)

theorem addWarning (text : String) : Steady (modify (Report.addWarning text)) :=
  .writes [] (fun r => (List.append_nil r.errors).symm) (fun _ => rfl) nofun

theorem count (f : Usage → Usage) : Steady (modify (Report.count f)) :=
  .writes [] (fun r => (List.append_nil r.errors).symm) (fun _ => rfl) nofun

theorem addEvent {e : Event} (quiet : e.partial? = none) : Steady (modify (Report.addEvent e)) :=
  .writes [] (fun r => (List.append_nil r.errors).symm)
    (fun _ => List.filterMap_cons_none quiet) nofun

/-- Errors are only added. -/
theorem errors_extend {action : StateM Report α} (h : Steady action) (r : Report) :
    r.errors <+: (action.run r).2.errors := by
  obtain ⟨a, errors, h, -⟩ := h
  exact ⟨errors, (h r).2.1.symm⟩

/-- Reporting one error after another. -/
theorem addErrors {γ : Type} (complaint : γ → Diagnostic) (plain : ∀ c, (complaint c).IsPlain)
    (cs : List γ) :
    Steady (modify fun r => cs.foldl (fun r c => r.addError (complaint c)) r : StateM Report Unit) := by
  refine .writes (cs.map complaint) (fun r => ?_) (fun r => ?_) fun d member => ?_
  · induction cs generalizing r with
    | nil => exact (List.append_nil r.errors).symm
    | cons c cs ih =>
        rw [List.foldl_cons, ih, List.map_cons, Report.addError]
        simp
  · induction cs generalizing r with
    | nil => rfl
    | cons c cs ih => exact ih _
  · obtain ⟨c, -, rfl⟩ := List.mem_map.mp member
    exact plain c

end Steady

namespace Reading

/-- Reading that may stop is steady as a computation with an outcome, and what it stops
at is no complaint about partials. -/
def IsSteady (action : Reading α) : Prop :=
  Steady action.run ∧ ∀ r d, (action.run.run r).1 = .error d → d.IsPlain

namespace IsSteady

theorem pure (a : α) : IsSteady (Pure.pure a) :=
  ⟨Steady.pure _, nofun⟩

theorem throw {d : Diagnostic} (plain : d.IsPlain) : IsSteady (throw d : Reading α) := by
  refine ⟨Steady.pure _, ?_⟩
  rintro _ _ ⟨rfl⟩
  exact plain

theorem bind {x : Reading α} {f : α → Reading β} (h : IsSteady x) (next : ∀ a, IsSteady (f a)) :
    IsSteady (x >>= f) := by
  refine ⟨?_, fun r d stopped => ?_⟩
  · change Steady (x.run >>= ExceptT.bindCont f)
    refine Steady.bind h.1 fun outcome => ?_
    cases outcome with
    | ok a => exact (next a).1
    | error d => exact Steady.pure _
  · change ((ExceptT.bindCont f (x.run.run r).1).run (x.run.run r).2).1 = .error d at stopped
    cases outcome : (x.run.run r).1 with
    | ok a =>
        rw [outcome] at stopped
        exact (next a).2 _ d stopped
    | error d' =>
        rw [outcome] at stopped
        cases stopped
        exact h.2 r _ outcome

theorem addError {d : Diagnostic} (plain : d.IsPlain) : IsSteady (Reading.addError d) :=
  ⟨⟨.ok (), [d], fun _ => ⟨rfl, rfl, rfl⟩, List.forall_mem_singleton.mpr plain⟩, nofun⟩

theorem addWarning (text : String) : IsSteady (Reading.addWarning text) :=
  ⟨⟨.ok (), [], fun r => ⟨rfl, (List.append_nil r.errors).symm, rfl⟩, nofun⟩, nofun⟩

theorem count (f : Usage → Usage) : IsSteady (Reading.count f) :=
  ⟨⟨.ok (), [], fun r => ⟨rfl, (List.append_nil r.errors).symm, rfl⟩, nofun⟩, nofun⟩

end IsSteady

end Reading

/-! ### Expressions -/

theorem Path.parse_plain {token : List Char} {site : Site} {d : Diagnostic}
    (h : Path.parse token site = .error d) : d.IsPlain := by
  unfold Path.parse at h
  split at h
  simp only at h
  split at h
  · cases h
    rfl
  · split at h
    · cases h
    · cases h
      rfl

theorem Path.read_steady (token : List Char) (site : Site) : Reading.IsSteady (Path.read token site) := by
  refine .bind ⟨Steady.pure (Path.parse token site), ?_⟩ fun p =>
    .bind (.count p.usage) fun _ => .pure p
  exact fun _ d stopped => Path.parse_plain stopped

namespace Expr

open Reading (IsSteady)

variable (isHelper : String → Bool) (site : Site)

theorem callee_steady (head : List Char) (hasArguments : Bool) :
    IsSteady (callee isHelper site head hasArguments) := by
  unfold callee
  simp only
  split
  · exact .bind (.count _) fun _ => .pure _
  · refine .bind (Path.read_steady head site) fun path => ?_
    split
    · exact .bind (.addError rfl) fun _ => .pure _
    · exact .pure _

mutual

theorem read_steady (token : List Char) : IsSteady (read isHelper site token) := by
  rw [read]
  split
  · exact .pure _
  · split
    · exact .bind (Path.read_steady token site) fun path => .pure _
    · next inner h =>
      split
      · exact .throw rfl
      · exact .throw rfl
      · next head rest params ht =>
        have smaller : room rest < token.length := by
          have inner := length_of_parenthesized? h
          have fits := room_of_tokens ht
          rw [room_cons] at fits
          omega
        exact .bind (readArguments_steady [] rest) fun arguments =>
          .bind (.count _) fun _ => .bind (callee_steady isHelper site head _) fun callee => .pure _
termination_by token.length

theorem readArguments_steady (hash : Table Expr) (ts : List (List Char)) :
    IsSteady (readArguments isHelper site hash ts) := by
  match ts with
  | [] =>
      rw [readArguments]
      exact .pure _
  | token :: ts =>
      have first : token.length < room (token :: ts) := by rw [room_cons]; omega
      have others : room ts < room (token :: ts) := by rw [room_cons]; omega
      rw [readArguments]
      split
      · next name value h =>
        have shorter : value.length < room (token :: ts) := Nat.lt_trans (length_of_named? h) first
        refine .bind (read_steady value) fun v => ?_
        simp only
        split
        · exact .bind (.addWarning _) fun _ => readArguments_steady _ ts
        · exact readArguments_steady _ ts
      · exact .bind (read_steady token) fun arg =>
          .bind (readArguments_steady hash ts) fun arguments => .pure _
termination_by room ts

end

end Expr

namespace Content

variable (isHelper : String → Bool) (site : Site) (text : List Char)

theorem read_steady : Reading.IsSteady (read isHelper site text) := by
  unfold read
  split
  · exact .throw rfl
  · exact .pure _
  · refine .bind (Expr.readArguments_steady isHelper site [] _) fun arguments => ?_
    simp only
    split
    · exact .bind (.count _) fun _ => .pure _
    · exact .pure _

theorem readPartial_steady : Reading.IsSteady (readPartial isHelper site text) := by
  refine .bind (read_steady isHelper site text) fun content => ?_
  simp only
  split
  · exact .bind (Expr.read_steady isHelper site _) fun name => .pure _
  · exact .pure _

end Content

/-! ### Templates -/

namespace Markup

variable (isHelper : String → Bool)

theorem orReport_steady {read : Reading α} (h : read.IsSteady) (default : α) :
    Steady (orReport default read) := by
  refine .bind_of h.1 fun outcome given => ?_
  cases outcome with
  | ok a => exact .pure a
  | error d => exact .bind (.addError (h.2 {} d (given {}))) fun _ => .pure default

theorem readInline_steady (site : Site) (inner : List Char) :
    (readInline isHelper site inner).IsSteady := by
  refine .bind (Content.read_steady isHelper site inner) fun content => ?_
  split
  · exact .pure _
  · exact .throw rfl

theorem readKind_steady (raw : RawTag) : Steady (readKind isHelper raw) := by
  have plain (kind : TagKind) (text : List Char) : Steady (do
      return (kind, ← orReport (fallback raw.inner) (Content.read isHelper raw.site text))) :=
    .bind (orReport_steady (Content.read_steady isHelper raw.site text) _) fun content => .pure _
  have inclusion (kind : PartialName → TagKind) : Steady (do
      let default := (PartialName.static (fallback raw.inner).head, fallback raw.inner)
      let named ← orReport default (Content.readPartial isHelper raw.site raw.inner)
      return (kind named.1, named.2)) :=
    .bind (orReport_steady (Content.readPartial_steady isHelper raw.site raw.inner) _)
      fun named => .pure _
  unfold readKind
  simp only
  split
  · exact .pure _
  · exact plain _ _
  · exact plain _ _
  · exact plain _ _
  · split
    · exact .pure _
    · exact plain _ _
  · exact .pure _
  · exact .pure _
  · exact inclusion _
  · exact inclusion _
  · exact orReport_steady (readInline_steady isHelper raw.site raw.inner) _
  · split
    · exact plain _ _
    · exact plain _ _

theorem RawTag.read_steady (raw : RawTag) : Steady (raw.read isHelper) :=
  .bind (readKind_steady isHelper raw) fun _ => .bind (.count _) fun _ => .pure _

theorem next?_plain {m : Marks} {c after : Cursor} {d : Diagnostic}
    (h : c.next? m = some (.fault d, after)) : d.IsPlain := by
  unfold Cursor.next? at h
  split at h
  · cases h
  split at h
  · cases h
  · simp only at h
    split at h
    · cases h
    · next fault _ =>
      cases h
      cases fault <;> rfl

theorem pieces_plain {m : Marks} {c : Cursor} {d : Diagnostic} (h : .fault d ∈ c.pieces m) :
    d.IsPlain := by
  fun_induction Cursor.pieces m c with
  | case1 => cases h
  | case2 c piece after here shorter ih =>
      rcases List.mem_cons.mp h with rfl | later
      · exact next?_plain here
      · exact ih later
  | case3 c piece after here =>
      cases List.mem_singleton.mp h
      exact next?_plain here

theorem scan_plain (m : Marks) (template : List Char) {d : Diagnostic}
    (h : .fault d ∈ scan m template) : d.IsPlain :=
  pieces_plain h

theorem readPieces_steady {pieces : List Piece} (plain : ∀ d, .fault d ∈ pieces → d.IsPlain) :
    Steady (readPieces isHelper pieces) := by
  induction pieces with
  | nil => exact .pure []
  | cons piece pieces ih =>
      have ih := ih fun d member => plain d (.tail _ member)
      cases piece with
      | text t => exact .bind ih fun items => .pure _
      | tag raw =>
          exact .bind (RawTag.read_steady isHelper raw) fun tag => .bind ih fun items => .pure _
      | fault cause => exact .bind (.addError (plain cause (.head _))) fun _ => ih

theorem checkClosing_steady (tag : Tag) (opened : OpenBlock) : Steady (checkClosing tag opened) := by
  unfold checkClosing
  split
  · exact .pure ()
  · split
    · exact .addWarning _
    · exact .addError rfl

theorem checkTag_steady (stack : List OpenBlock) (tag : Tag) : Steady (checkTag stack tag) := by
  unfold checkTag
  simp only
  split
  · exact .pure _
  · exact .pure _
  · exact .pure _
  · split
    · exact .pure _
    · exact .bind (.addError rfl) fun _ => .pure _
  · split
    · exact .bind (.addError rfl) fun _ => .pure _
    · exact .bind (checkClosing_steady tag _) fun _ => .pure _
  all_goals exact .pure _

theorem checkTokens_steady (stack : List OpenBlock) (tokens : List Token) :
    Steady (checkTokens stack tokens) := by
  induction tokens generalizing stack with
  | nil => exact .pure stack
  | cons token tokens ih =>
      cases token with
      | text s => exact ih stack
      | tag tag => exact .bind (checkTag_steady stack tag) fun stack => ih stack

theorem checkNesting_steady (tokens : List Token) : Steady (checkNesting tokens) := by
  refine .bind (checkTokens_steady [] tokens) fun stack => ?_
  exact .addErrors (fun opened : OpenBlock => .unclosedBlock opened.site) (fun _ => rfl) _

theorem readTemplate_steady (s : Settings) (source : String) :
    Steady (readTemplate s isHelper source) :=
  .bind (readPieces_steady isHelper fun _ => scan_plain _ _) fun _ => .bind (checkNesting_steady _) fun _ =>
    .bind (.addEvent rfl) fun _ => .pure _

/-! ### What reading asks of the settings

Reading asks for the delimiters and for what is done about white space. It does not ask whether
partials are copied in or found when rendering. -/

/-- The two settings have templates read in the same way. -/
structure ReadAlike (s s' : Settings) : Prop where
  delimiters : s.delimiters = s'.delimiters
  ignoreStandalone : s.ignoreStandalone = s'.ignoreStandalone
  preventIndent : s.preventIndent = s'.preventIndent

section

variable {s s' : Settings} (alike : ReadAlike s s')

include alike

theorem ReadAlike.place_eq (before : List Item) (item : Item) (after : List Item) :
    place s before item after = place s' before item after := by
  have alone (before : List Item) (tag : Tag) (after : List Item) :
      standsAlone s before tag after = standsAlone s' before tag after := by
    rw [standsAlone, standsAlone, alike.ignoreStandalone]
  cases item with
  | text t =>
      have start : keptStart s before t after = keptStart s' before t after := by
        unfold keptStart
        split
        · rw [alone]
        · rfl
      have stop : keptStop s before t after = keptStop s' before t after := by
        unfold keptStop
        split
        · rw [alone, keepsIndent, keepsIndent, alike.preventIndent]
        · rfl
      rw [place, place, Run.between, Run.between, start, stop]
  | tag raw tag => simp only [place, indentBefore, alone, alike.preventIndent]

theorem ReadAlike.placeFrom_eq (before items : List Item) :
    placeFrom s before items = placeFrom s' before items := by
  induction items generalizing before with
  | nil => rfl
  | cons item after ih => rw [placeFrom, placeFrom, alike.place_eq, ih]

theorem ReadAlike.readTemplate_eq (source : String) :
    readTemplate s isHelper source = readTemplate s' isHelper source := by
  simp only [readTemplate, layout, alike.delimiters, alike.placeFrom_eq]

end

theorem readTemplate_runtimePartials (s : Settings) (runtime : Bool) (source : String) :
    readTemplate { s with runtimePartials := runtime } isHelper source =
      readTemplate s isHelper source := by
  have alike : ReadAlike { s with runtimePartials := runtime } s := ⟨rfl, rfl, rfl⟩
  exact alike.readTemplate_eq isHelper source

end Markup

/-! ### Builtin blocks -/

namespace Builtin

theorem checkNames_steady (allowed : List String) (hash : Table Expr) (site : Site) :
    Steady (checkNames allowed hash site) :=
  .addErrors (fun name => .namedArgument name site) (fun _ => rfl) _

theorem check_steady (label : String) (least most : Nat) (allowed : List String)
    (content : Content) (site : Site) : Steady (check label least most allowed content site) := by
  unfold check
  split
  · split
    · exact .addError rfl
    · exact .addError rfl
  · simp only
    split
    · exact .bind (.addError rfl) fun _ => checkNames_steady allowed content.hash site
    · exact checkNames_steady allowed content.hash site

theorem open?_steady {content : Content} {openBlock : Site → StateM Report BlockKind}
    (h : open? content = some openBlock) (site : Site) : Steady (openBlock site) := by
  unfold open? at h
  split at h
  · cases h
    exact .bind (check_steady _ _ _ _ content site) fun _ => .pure _
  split at h
  · cases h
    exact .bind (check_steady _ _ _ _ content site) fun _ => .pure _
  split at h
  · cases h
    exact .bind (check_steady _ _ _ _ content site) fun _ => .pure _
  split at h
  · cases h
    exact .bind (check_steady _ _ _ _ content site) fun _ => .pure _
  · cases h

end Builtin

end Stencil
