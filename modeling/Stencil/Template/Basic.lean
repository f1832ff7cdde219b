import Stencil.Registry
import Stencil.Report
import Stencil.Settings

/-!
Compiled templates.
-/

namespace Stencil

/-- A compiled template with all that rendering needs. -/
structure Template where
  plan : Plan
  /-- The partials found by name when rendering, in the order in which they were
  compiled. -/
  partials : Table Plan
  helpers : Table Helper
  blockHelpers : Table BlockHelper
  settings : Settings
  usage : Usage
  warnings : List String

end Stencil
