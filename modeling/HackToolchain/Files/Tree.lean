import HackToolchain.Files.Basic
import HackToolchain.Files.Path

/-! File trees in memory. A tree lists its directories and files by their place, which is the row
of names that leads there from the root; paths are followed name by name, and every name but the
last must be that of a directory. -/

namespace HackToolchain

/-- The names that lead from the root to a directory or file. -/
abbrev Place := List String

inductive Node where
  | directory
  /-- A file with its text, or none if its bytes are not text. -/
  | file (text : Option String)
deriving DecidableEq

structure FileTree where
  /-- Everything in the tree but its root. -/
  nodes : List (Place × Node)
  /-- The place that relative paths start from. -/
  start : Place

namespace FileTree

def node? (tree : FileTree) (place : Place) : Option Node :=
  if place.isEmpty then some .directory else tree.nodes.lookup place

def requireDirectory (tree : FileTree) (place : Place) : Except FileError Unit :=
  match tree.node? place with
  | some .directory => .ok ()
  | some (.file _) => .error .notDirectory
  | none => .error .notFound

/-- Follows the pieces of a path from a place. -/
def follow (tree : FileTree) (place : Place) : List (List Char) → Except FileError Place
  | [] => .ok place
  | piece :: rest => do
    tree.requireDirectory place
    if Path.isVacant piece then follow tree place rest
    else if piece = ['.', '.'] then follow tree place.dropLast rest
    else follow tree (place ++ [String.ofList piece]) rest

/-- Where the pieces of a path start. -/
def origin (tree : FileTree) (path : String) : Place :=
  if path.toList.head? = some '/' then [] else tree.start

def locate (tree : FileTree) (path : String) : Except FileError (Place × Node) := do
  let place ← tree.follow (tree.origin path) (Path.pieces path)
  match tree.node? place with
  | some node => return (place, node)
  | none => throw .notFound

def isDirectory (tree : FileTree) (path : String) : Bool :=
  match tree.locate path with
  | .ok (_, .directory) => true
  | _ => false

/-- The last name of a place in a directory. -/
def entry? (directory place : Place) : Option String :=
  match place.reverse with
  | [] => none
  | name :: above => if above.reverse = directory then some name else none

def entries (tree : FileTree) (path : String) : Except FileError (List String) := do
  match ← tree.locate path with
  | (place, .directory) => return tree.nodes.filterMap fun (other, _) => entry? place other
  | (_, .file _) => throw .notDirectory

def readText (tree : FileTree) (path : String) : Except FileError String := do
  match ← tree.locate path with
  | (_, .file (some text)) => return text
  | (_, .file none) => throw .notText
  | (_, .directory) => throw .isDirectory

/-- Puts a node at a place, in the stead of one that is there. -/
def put (place : Place) (node : Node) : List (Place × Node) → List (Place × Node)
  | [] => [(place, node)]
  | (other, old) :: rest =>
    if other = place then (place, node) :: rest else (other, old) :: put place node rest

/-- The place that a path names for writing. A slash at the end promises a directory. -/
def target (tree : FileTree) (path : String) : Except FileError Place := do
  let pieces := (Path.pieces path).reverse
  let named := pieces.dropWhile List.isEmpty
  let place ← tree.follow (tree.origin path) named.reverse
  if named.length < pieces.length then throw .isDirectory
  return place

def writeText (tree : FileTree) (path contents : String) : Except FileError FileTree := do
  let place ← tree.target path
  match tree.node? place with
  | some .directory => throw .isDirectory
  | _ => return { tree with nodes := put place (.file (some contents)) tree.nodes }

instance : Files (StateM FileTree) where
  isDirectory path := return (← get).isDirectory path
  entries path := return (← get).entries path
  readText path := return (← get).readText path
  writeText path contents := do
    match (← get).writeText path contents with
    | .ok tree => set tree; return .ok ()
    | .error e => return .error e

end FileTree

end HackToolchain
