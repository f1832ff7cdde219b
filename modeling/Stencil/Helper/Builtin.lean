import Stencil.Helper.Basic
import Stencil.Value.Text

/-!
The builtin helpers `lookup` and `log`.
-/

namespace Stencil.Helper

/-- The member of the first argument that the second one names. -/
def lookup : Helper := fun call =>
  match call.args with
  | target :: key :: _ => .done ((target.get? key.text).getD .null)
  | _ => .fail (.message "lookup requires an object and a key")

/-- Writes its arguments to the journal, at the level that the named argument
`level` gives. -/
def log : Helper := fun call =>
  let message := " ".intercalate (Value.texts call.args)
  match Table.get? call.hash "level" with
  | none => .log .info message (.done .null)
  | some level =>
    match Level.read? level.text with
    | some level => .log level message (.done .null)
    | none => .fail (.message "log level must be one of trace, debug, info, warn, error")

end Stencil.Helper
