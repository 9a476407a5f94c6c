import ClassFile.Survey.Path

/-! Trees of files, and the class files in them. -/

namespace ClassFile.Survey

/-- A file with its contents, or a directory with its named entries. -/
inductive FileTree where
  | file (contents : List UInt8)
  | directory (entries : List (String × FileTree))

namespace FileTree

mutual

/-- The files of a tree, each with the names on the way to it. -/
def files : FileTree → List (List String × List UInt8)
  | .file contents => [([], contents)]
  | .directory entries => filesOf entries

/-- The files of the entries of a directory. -/
def filesOf : List (String × FileTree) → List (List String × List UInt8)
  | [] => []
  | (name, tree) :: rest =>
    (tree.files.map fun (names, contents) => (name :: names, contents)) ++ filesOf rest

end

/-- The entries of a directory; a file has none. -/
def entries : FileTree → List (String × FileTree)
  | .file _ => []
  | .directory entries => entries

/-- The entry of a directory with a name. -/
def entry? (tree : FileTree) (name : String) : Option FileTree := tree.entries.lookup name

def isDirectory : FileTree → Bool
  | .file _ => false
  | .directory _ => true

/-- Follows the parts of a path from a tree; `above` holds the directories that the tree lies in, the
innermost one first. A part that names the directory itself, or nothing, needs a directory. -/
def follow? (above : List FileTree) (tree : FileTree) : List String → Option FileTree
  | [] => some tree
  | part :: rest =>
    if !tree.isDirectory then none
    else if part = "" ∨ part = "." then tree.follow? above rest
    else if part = ".." then
      match above with
      | [] => none
      | outer :: above => outer.follow? above rest
    else
      match tree.entry? part with
      | none => none
      | some inner => inner.follow? (tree :: above) rest

/-- What lies at a relative path below a tree. -/
def at? (tree : FileTree) (path : String) : Option FileTree :=
  if path.startsWith "/" then none else tree.follow? [] (pathParts path)

/-- Changes what lies at a place in a directory. Directories are made on the way as needed, and an empty
one is what lies at a new place. -/
def change (f : FileTree → FileTree) : List String → FileTree → FileTree
  | [], tree => f tree
  | name :: names, tree =>
    let inner := (tree.entry? name).getD (.directory [])
    .directory ((name, change f names inner) :: tree.entries.filter (·.1 ≠ name))

/-- The names on the way to a place below a directory. -/
def placeNames (path : String) : List String :=
  (pathParts path).filter fun part => part ≠ "" ∧ part ≠ "."

/-- Adds a file, or replaces what was there. -/
def addFile (tree : FileTree) (path : String) (contents : List UInt8) : FileTree :=
  tree.change (fun _ => .file contents) (placeNames path)

/-- Adds a directory if there is none. -/
def addDirectory (tree : FileTree) (path : String) : FileTree :=
  tree.change (fun inner => .directory inner.entries) (placeNames path)

end FileTree

/-- A file that was found, with the path to it. -/
structure FoundFile where
  path : String
  contents : List UInt8

/-- The class files of a directory, in the order of a walk that visits the entries of each directory by
name, and the contents of a directory at its own place. -/
def classFiles (path : String) (tree : FileTree) : List FoundFile :=
  let named := tree.files.filter fun (names, _) => (names.getLast?.map isClassFileName).getD false
  let sorted := named.mergeSort fun a b => (compare a.1 b.1).isLE
  sorted.map fun (names, contents) => ⟨joinPath path names, contents⟩

/-- The files to look at for a given path: the file itself, whatever its name, or the class files of a
directory. -/
def filesAt (path : String) : FileTree → List FoundFile
  | .file contents => [⟨path, contents⟩]
  | tree => classFiles path tree

end ClassFile.Survey
