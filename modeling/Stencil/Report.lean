import Stencil.Diagnostic
import Stencil.Journal

/-!
The report of a compile call: what is found wrong, what is worth a warning,
which features the template uses, and the journal.

Reading a tag may stop at a diagnostic, but what it has reported up to
there stays. `Reading` is the monad of such computations.
-/

namespace Stencil

/-- How often each feature occurs. -/
structure Usage where
  interpolations : Nat := 0
  /-- Paths that step to an enclosing context. -/
  parentPaths : Nat := 0
  rootPaths : Nat := 0
  /-- Paths to special variables other than the root. -/
  specialVars : Nat := 0
  helpers : Nat := 0
  blockHelpers : Nat := 0
  subexpressions : Nat := 0
  partials : Nat := 0
  dynamicPartials : Nat := 0
  partialBlocks : Nat := 0
  inlinePartials : Nat := 0
  rawBlocks : Nat := 0
  comments : Nat := 0
  elseBranches : Nat := 0
  blockParams : Nat := 0
  sections : Nat := 0
  deriving DecidableEq

structure Report where
  /-- The diagnostics, in the order found. -/
  errors : List Diagnostic := []
  /-- The warnings, in the order found. -/
  warnings : List String := []
  usage : Usage := {}
  /-- The journal, newest first. -/
  events : List Event := []
  deriving DecidableEq

namespace Report

def addError (d : Diagnostic) (r : Report) : Report :=
  { r with errors := r.errors ++ [d] }

def addEvent (e : Event) (r : Report) : Report :=
  { r with events := e :: r.events }

/-- A warning also stands in the journal. -/
def addWarning (text : String) (r : Report) : Report :=
  { r with warnings := r.warnings ++ [text], events := .warning text :: r.events }

def count (f : Usage → Usage) (r : Report) : Report :=
  { r with usage := f r.usage }

end Report

/-- Reading part of a tag: it may stop at a diagnostic, and reports on its way. -/
abbrev Reading := ExceptT Diagnostic (StateM Report)

namespace Reading

def addError (d : Diagnostic) : Reading Unit :=
  modify (Report.addError d)

def addWarning (text : String) : Reading Unit :=
  modify (Report.addWarning text)

def count (f : Usage → Usage) : Reading Unit :=
  modify (Report.count f)

end Reading

end Stencil
