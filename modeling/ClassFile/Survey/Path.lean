/-! Paths of files. A path is kept as it was given; paths are compared by what they are made of, so that
doubled and trailing slashes make no difference. -/

namespace ClassFile.Survey

/-- The parts of a path between its slashes. -/
def pathParts (path : String) : List String := (path.toList.splitOn '/').map String.ofList

/-- What a path is made of, in the order in which paths are sorted. -/
inductive PathComponent where
  | root
  /-- The directory itself, which only counts at the start of a path. -/
  | current
  | parent
  | normal (name : String)
  deriving DecidableEq, Ord

namespace PathComponent

/-- The component that a part between slashes behind the first one stands for. -/
def ofPart? (part : String) : Option PathComponent :=
  if part = "" ∨ part = "." then none
  else if part = ".." then some .parent
  else some (.normal part)

/-- The component that the part before the first slash stands for. -/
def ofFirstPart? (part : String) (alone : Bool) : Option PathComponent :=
  if part = "" then if alone then none else some .root
  else if part = "." then some .current
  else ofPart? part

end PathComponent

def components (path : String) : List PathComponent :=
  match pathParts path with
  | [] => []
  | first :: rest =>
    (PathComponent.ofFirstPart? first rest.isEmpty).toList ++ rest.filterMap PathComponent.ofPart?

/-- The order of paths. -/
def comparePaths (a b : String) : Ordering := compare (components a) (components b)

/-- The path of something below another path. -/
def joinPath (path : String) (names : List String) : String :=
  names.foldl (fun path name => if path.endsWith "/" then path ++ name else path ++ "/" ++ name) path

/-- Whether a file with a name is taken for a class file: its name has to end in `.class`, with something
before that. -/
def isClassFileName (name : String) : Bool :=
  name.endsWith ".class" && name ≠ ".class"

end ClassFile.Survey
