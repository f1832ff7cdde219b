import Stencil.Encoding
import Stencil.Value.Basic

/-!
Settings: what a caller may choose before compiling.

Settings are read from data in which every field may be left out and
unknown fields do not matter; a field of the wrong kind makes the whole
unreadable.
-/

namespace Stencil

/-- The texts that open and close a tag. -/
structure Delimiters where
  opening : String := "\x7b\x7b"
  closing : String := "\x7d\x7d"
  deriving DecidableEq

structure Settings where
  /-- How plain interpolation is encoded. -/
  encoding : Encoding := .html
  /-- Interpolating a variable that does not exist is an error. -/
  strict : Bool := false
  /-- Lists and texts have a member `length`. -/
  propertyAccess : Bool := false
  /-- The indentation of a partial stands once and not on every line. -/
  preventIndent : Bool := false
  /-- A partial called without a context gets an empty object. -/
  explicitPartialContext : Bool := false
  /-- Calling an unknown helper is a compile error. -/
  knownHelpersOnly : Bool := false
  /-- White space around tags that are alone on their line is kept. -/
  ignoreStandalone : Bool := false
  /-- Partials are found by name when rendering and not copied in. -/
  runtimePartials : Bool := false
  /-- How many partials may be active inside each other. -/
  maxPartialDepth : Nat := 64
  delimiters : Delimiters := {}
  deriving DecidableEq

namespace Settings

/-- Reads a field that may be left out. -/
def field? {α : Type} (fields : Fields) (name : String) (default : α)
    (read : Value → Option α) : Option α :=
  match fields.get? name with
  | none => some default
  | some v => read v

def bool? : Value → Option Bool
  | .bool b => some b
  | _ => none

/-- A count below `2 ^ 64`. -/
def count? : Value → Option Nat
  | .number (.integer n) => if 0 ≤ n && n < UInt64.size then some n.toNat else none
  | _ => none

def string? : Value → Option String
  | .string s => some s
  | _ => none

/-- An encoding is given by its name, which may be the only key of an object and
has null under it then. -/
def encoding? : Value → Option Encoding
  | .string name => Encoding.ofName? name
  | .object [(name, .null)] => Encoding.ofName? name
  | _ => none

/-- Delimiters have both fields, or are a list of the two. -/
def delimiters? : Value → Option Delimiters
  | .object fields => do
    let opening ← string? (← Table.get? fields "open")
    let closing ← string? (← Table.get? fields "close")
    some { opening, closing }
  | .array [opening, closing] => do
    some { opening := ← string? opening, closing := ← string? closing }
  | _ => none

/-- Reads settings from an object. -/
def ofFields? (fields : Fields) : Option Settings := do
  let default : Settings := {}
  some {
    encoding := ← field? fields "escape" default.encoding encoding?
    strict := ← field? fields "strict" default.strict bool?
    propertyAccess := ← field? fields "property_access" default.propertyAccess bool?
    preventIndent := ← field? fields "prevent_indent" default.preventIndent bool?
    explicitPartialContext :=
      ← field? fields "explicit_partial_context" default.explicitPartialContext bool?
    knownHelpersOnly := ← field? fields "known_helpers_only" default.knownHelpersOnly bool?
    ignoreStandalone := ← field? fields "ignore_standalone" default.ignoreStandalone bool?
    runtimePartials := ← field? fields "runtime_partials" default.runtimePartials bool?
    maxPartialDepth := ← field? fields "max_partial_depth" default.maxPartialDepth count?
    delimiters := ← field? fields "delimiters" default.delimiters delimiters? }

/-- Reads settings from data. -/
def ofValue? : Value → Option Settings
  | .object fields => ofFields? fields
  | _ => none

/-- Settings as data, every field written. -/
def toFields (s : Settings) : Fields :=
  [("escape", .string s.encoding.name),
   ("strict", .bool s.strict),
   ("property_access", .bool s.propertyAccess),
   ("prevent_indent", .bool s.preventIndent),
   ("explicit_partial_context", .bool s.explicitPartialContext),
   ("known_helpers_only", .bool s.knownHelpersOnly),
   ("ignore_standalone", .bool s.ignoreStandalone),
   ("runtime_partials", .bool s.runtimePartials),
   ("max_partial_depth", .ofNat s.maxPartialDepth),
   ("delimiters", .object
     [("open", .string s.delimiters.opening), ("close", .string s.delimiters.closing)])]

end Settings

end Stencil
