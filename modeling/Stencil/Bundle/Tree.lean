import Stencil.Text.Blank

/-!
Trees of files.

A folder keeps its entries in ascending order of their names, which is
the order in which a walk visits them. A path may hold empty parts and
parts that are a single point; they do not lead anywhere.
-/

namespace Stencil.Bundle

open Text

inductive Tree
  | file (bytes : ByteArray)
  | folder (entries : List (String × Tree))

/-- The entries of a folder. -/
abbrev Entries := List (String × Tree)

namespace Entries

def get? : Entries → String → Option Tree
  | [], _ => none
  | (name, tree) :: entries, key => if name = key then some tree else get? entries key

/-- Puts an entry in its place. -/
def insert : Entries → String → Tree → Entries
  | [], name, tree => [(name, tree)]
  | (other, old) :: entries, name, tree =>
    if name = other then (name, tree) :: entries
    else if name < other then (name, tree) :: (other, old) :: entries
    else (other, old) :: insert entries name tree

/-- Writes a file, with the folders on its way. -/
def write : List String → ByteArray → Entries → Entries
  | [], _, entries => entries
  | [name], bytes, entries => insert entries name (.file bytes)
  | name :: path, bytes, entries =>
    let inner : Entries := match get? entries name with
      | some (.folder inner) => inner
      | _ => []
    insert entries name (.folder (write path bytes inner))

end Entries

namespace Tree

/-- What a path leads to. -/
def find? : List String → Tree → Option Tree
  | [], tree => some tree
  | _ :: _, .file _ => none
  | name :: path, .folder entries =>
    match Entries.get? entries name with
    | some tree => find? path tree
    | none => none

mutual

/-- The files of a tree in the order of a walk, each with its path. -/
def files : Tree → List (List String × ByteArray)
  | .file bytes => [([], bytes)]
  | .folder entries => filesOf entries

def filesOf : List (String × Tree) → List (List String × ByteArray)
  | [] => []
  | (name, tree) :: entries =>
    (files tree).map (fun (path, bytes) => (name :: path, bytes)) ++ filesOf entries

end

end Tree

/-! ### Paths -/

/-- Cuts a text at slashes; `part` holds the characters of the part being read,
last one first. -/
def partsFrom (part : List Char) : List Char → List (List Char)
  | [] => [part.reverse]
  | c :: rest => if c = '/' then part.reverse :: partsFrom [] rest else partsFrom (c :: part) rest

/-- The parts of a path. -/
def rawParts (path : String) : List String :=
  (partsFrom [] path.toList).map String.ofList

/-- Whether a part leads somewhere. -/
def isStep (part : String) : Bool :=
  part != "" && part != "."

/-- The steps of a path. -/
def steps (path : String) : List String :=
  (rawParts path).filter isStep

/-- Whether a path can lead to a file: its last part must be a step. -/
def mayNameFile (path : String) : Bool :=
  (rawParts path).getLast?.any isStep

/-- A path below a folder. -/
def join (folder path : String) : String :=
  if folder.endsWith "/" then folder ++ path else folder ++ "/" ++ path

/-- The name of a file without its extension, and the extension. A point at the
start of a name begins no extension. -/
def splitExtension (name : String) : String × Option String :=
  let extension := takeEndWhile (· != '.') name.toList
  match dropEndWhile (· != '.') name.toList with
  | [] => (name, none)
  | ['.'] => (name, none)
  | dotted => (String.ofList dotted.dropLast, some (String.ofList extension))

end Stencil.Bundle
