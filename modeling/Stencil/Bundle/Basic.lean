import Stencil.Bundle.Tree
import Stencil.Template.Compile
import Stencil.Text.Letter
import Stencil.Text.Quoted

/-!
Bundles: templates checked ahead of time.

A bundle is made from a text, from a file or from all template files of a
folder. Each template is compiled with the others of its folder as
partials, and what is wrong with it is reported; a helper that is missing
is not, since helpers are registered later. A template that is in order
becomes a function named after it.
-/

namespace Stencil

open Text

namespace Bundle

/-- A template before it is checked. -/
structure Source where
  name : String
  content : String
  /-- The file that it was read from. -/
  file : Option String := none

/-- What is made of a template that is in order. -/
structure Function where
  name : String
  content : String
  file : Option String

end Bundle

/-- A set of templates that was checked. -/
structure Bundle where
  functions : List Bundle.Function := []
  /-- The names and sources to register as partials, if there are any to. -/
  register : Option (List (String × String)) := none
  /-- What is wrong. -/
  messages : List String := []

namespace Bundle

/-! ### Names -/

/-- One character of a name with words joined by underscores. `first` says that it
is the first one. -/
def snakeChar (first : Bool) (c : Char) : List Char :=
  if isUpper c then (if first then lowercase c else '_' :: lowercase c)
  else if isAlphanumeric c then [c]
  else ['_']

/-- The name of a function for a template: an upper case letter begins a word, and
what is neither letter nor number becomes an underscore. -/
def snakeCase : List Char → List Char
  | [] => []
  | c :: name => snakeChar true c ++ name.flatMap (snakeChar false)

def functionName (name : String) : String :=
  String.ofList (snakeCase name.toList)

/-! ### Checking -/

/-- Whether a diagnostic counts before helpers are registered. -/
def isReportable : Diagnostic → Bool
  | .missingHelper .. => false
  | .inPartial _ cause => isReportable cause
  | _ => true

/-- The registry that templates are checked with. -/
def checkRegistry (partials : List Source) : Registry :=
  partials.foldl (fun r source => r.registerPartial source.name source.content) Registry.builtin

/-- What is wrong with a template beside these partials. -/
def check (partials : List Source) (source : Source) : List String :=
  match ((checkRegistry partials).compile { runtimePartials := true } source.content).result with
  | .ok _ => []
  | .error errors =>
    (errors.filter isReportable).map fun d =>
      "template '" ++ source.name ++ "': " ++ d.message

/-- The function of a template, if its name can be one. -/
def function? (source : Source) : Option Function :=
  let name := functionName source.name
  if isIdentifier name.toList then some { name, content := source.content, file := source.file }
  else none

/-- The functions of templates that are all in order, or what is wrong with them;
none if a name cannot be the name of a function. -/
def expand (sources partials : List Source) : Option Bundle :=
  match sources.flatMap (check partials) with
  | [] => (sources.mapM function?).map fun functions => { functions }
  | messages => some { messages }

/-- A bundle of which nothing was made. -/
def failure (message : String) : Bundle := { messages := [message] }

/-! ### Texts, files and folders -/

/-- The bundle of a template given as text. -/
def ofText (name content : String) : Option Bundle :=
  expand [{ name, content }] []

/-- The path of a file or folder as it was asked for, or the complaint that the
root is not known. -/
def locate (root : Option String) (path : String) : Except Bundle String :=
  match root with
  | some root => .ok (join root path)
  | none => .error (failure "CARGO_MANIFEST_DIR not set")

/-- Reads a template from the bytes of its file. -/
def readSource (name file : String) (bytes : ByteArray) : Except Bundle Source :=
  match String.fromUTF8? bytes with
  | some content => .ok { name, content, file := some file }
  | none =>
    .error (failure
      ("Failed to read " ++ quoted file ++ ": stream did not contain valid UTF-8"))

/-- The bundle of a template file below the root. -/
def ofFile (root : Option String) (tree : Tree) (path : String) : Option Bundle :=
  match locate root path with
  | .error bundle => some bundle
  | .ok file =>
    match if mayNameFile path then tree.find? (steps path) else none with
    | some (.file bytes) =>
      let name := (splitExtension ((steps path).getLastD "")).1
      match readSource name file bytes with
      | .error bundle => some bundle
      | .ok source => expand [source] []
    | _ => some (failure ("File not found: " ++ quoted file))

/-- The name of a template file in its folder: its path without the extension. A
name that would be a single point gets a second one. -/
def templateName? (path : List String) : Option String :=
  match path.getLast? with
  | none => none
  | some last =>
    match splitExtension last with
    | (stem, some "hbs") =>
      some ("/".intercalate (path.dropLast ++ [if stem = "." then ".." else stem]))
    | _ => none

/-- The template files of a folder, in the order of a walk. -/
def readFolder (folder : String) : List (List String × ByteArray) → Except Bundle (List Source)
  | [] => .ok []
  | (path, bytes) :: files =>
    match templateName? path with
    | none => readFolder folder files
    | some name => do
      let source ← readSource name (join folder ("/".intercalate path)) bytes
      let sources ← readFolder folder files
      return source :: sources

/-- The bundle of all template files of a folder below the root. -/
def ofFolder (root : Option String) (tree : Tree) (path : String) : Option Bundle :=
  match locate root path with
  | .error bundle => some bundle
  | .ok folder =>
    match tree.find? (steps path) with
    | some (.folder entries) =>
      match readFolder folder (Tree.filesOf entries) with
      | .error bundle => some bundle
      | .ok sources =>
        (expand sources sources).map fun bundle =>
          { bundle with register := some (sources.map fun s => (s.name, s.content)) }
    | _ => some (failure ("Directory not found: " ++ quoted folder))

end Bundle

end Stencil
