import ClassFile.Survey.Run

/-! The command line program: it reads what lies at the given paths, makes the survey, and writes the log to
the standard error and the report to the standard output. -/

namespace ClassFile.Survey

/-- Reads a directory. Other files than class files are left out, since no survey looks at them, and links
are not followed. -/
partial def readDirectory (path : String) : IO FileTree := do
  let mut entries := []
  for entry in ← (← IO.FS.realPath path).readDir do
    match (← entry.path.symlinkMetadata).type with
    | .dir => entries := (entry.fileName, ← readDirectory entry.path.toString) :: entries
    | .file =>
      if isClassFileName entry.fileName then
        entries := (entry.fileName, .file (← IO.FS.readBinFile entry.path).toList) :: entries
    | _ => pure ()
  return .directory entries

/-- Reads what lies at a path, if there is something. -/
def readTree? (path : String) : IO (Option FileTree) := do
  try
    let place ← IO.FS.realPath path
    if ← place.isDir then return some (← readDirectory place.toString)
    else return some (.file (← IO.FS.readBinFile place).toList)
  catch _ => return none

/-- Reads what a command looks at. -/
def Command.readTrees : Command → IO (List (String × Option FileTree))
  | .survey settings => settings.paths.mapM fun path => return (path, ← readTree? path)
  | .version | .help => return []

end ClassFile.Survey

open ClassFile.Survey in
/-- Runs the program on its arguments, and returns the exit code. -/
def main (arguments : List String) : IO UInt32 := do
  match Command.ofArguments arguments with
  | .error fault =>
    IO.eprintln ("error: " ++ fault.message)
    return cannotStart
  | .ok command =>
    let trees ← command.readTrees
    let outcome := command.run fun path => (trees.lookup path).join
    for line in outcome.log do IO.eprintln line.render
    for line in outcome.output do IO.println line
    return outcome.exitCode
