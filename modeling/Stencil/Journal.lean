import Stencil.Value.Basic

/-!
The journal: what compiling and rendering report besides their result.
-/

namespace Stencil

inductive Level
  | trace
  | debug
  | info
  | warn
  | error
  deriving DecidableEq

namespace Level

/-- A letter of the alphabet in lower case; other characters stay. -/
def lower (c : Char) : Char :=
  if 'A' ≤ c && c ≤ 'Z' then Char.ofNat (c.toNat + 32) else c

/-- Reads a level from its name in any case, or from a count: 1 is the most
severe, 5 the least. -/
def read? (s : String) : Option Level :=
  match Numeral.count? s.toList with
  | some n =>
    if n = 1 then some error
    else if n = 2 then some warn
    else if n = 3 then some info
    else if n = 4 then some debug
    else if n = 5 then some trace
    else none
  | none =>
    let name := s.toList.map lower
    if name = "error".toList then some error
    else if name = "warn".toList then some warn
    else if name = "info".toList then some info
    else if name = "debug".toList then some debug
    else if name = "trace".toList then some trace
    else none

end Level

/-- Something reported while compiling or rendering. -/
inductive Event
  /-- A template of this many bytes is about to be compiled. -/
  | compiling (bytes : Nat)
  /-- A source was read into this many tokens. -/
  | validated (tokens : Nat)
  | compilingPartial (name : String)
  | failed (errors : Nat)
  | compiled (nodes partials warnings : Nat)
  | warning (text : String)
  /-- A partial is looked up by name inside this many active ones. -/
  | dispatching (name : String) (depth : Nat)
  | calling (helper : String) (args : Nat) (block : Bool)
  /-- A message of the helper `log`. -/
  | log (level : Level) (message : String)
  deriving DecidableEq

end Stencil
