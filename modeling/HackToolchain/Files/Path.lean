/-! Path text. A path is a row of pieces between slashes, of which the empty ones and single dots
name nothing; its file name is the last piece that names something. -/

namespace HackToolchain.Path

/-- The text between the slashes of a path. -/
def pieces (path : String) : List (List Char) := path.toList.splitOn '/'

def isVacant (piece : List Char) : Bool := piece.isEmpty || piece == ['.']

/-- The pieces up to the last that names something, the last first. -/
def reversedPieces (path : String) : List (List Char) :=
  (pieces path).reverse.dropWhile isVacant

/-- The last piece, unless it leads to a parent. -/
def fileName? (path : String) : Option (List Char) :=
  match reversedPieces path with
  | [] => none
  | name :: _ => if name = ['.', '.'] then none else some name

/-- A name before and after its last dot. A name without a dot, or whose only dot comes first, has
nothing after it. -/
def splitName (name : List Char) : List Char × Option (List Char) :=
  let extension := (name.reverse.takeWhile (· != '.')).reverse
  let stem := (name.reverse.dropWhile (· != '.')).tail.reverse
  if stem.isEmpty then (name, none) else (stem, some extension)

def stem? (path : String) : Option String :=
  (fileName? path).map fun name => String.ofList (splitName name).1

def extension? (path : String) : Option String :=
  (fileName? path).bind fun name => (splitName name).2.map String.ofList

def isSource (path : String) : Bool := extension? path == some "vm"

/-- The path with an extension after the stem of its file name, in the stead of all that follows
the stem. A path without a file name stays as it is. -/
def extend (path extension : String) : String :=
  match fileName? path, reversedPieces path with
  | some name, _ :: before =>
    let renamed := (splitName name).1 ++ '.' :: extension.toList
    String.ofList (['/'].intercalate (before.reverse ++ [renamed]))
  | _, _ => path

/-- The path with another extension. As many characters as the old one has are taken off the end
first, and what is left may have no file name any more: `..vm` becomes `..` and stays so. -/
def withExtension (path extension : String) : String :=
  let old := ((extension? path).map String.length).getD 0
  extend (String.ofList (path.toList.take (path.length - old))) extension

example : withExtension "d/a.b.vm" "asm" = "d/a.b.asm" := by decide +kernel

example : withExtension "d/..vm" "asm" = "d/.." := by decide +kernel

/-- The path of an entry of a directory. -/
def join (directory name : String) : String :=
  if directory.toList.getLast? = some '/' then directory ++ name else directory ++ "/" ++ name

end HackToolchain.Path
