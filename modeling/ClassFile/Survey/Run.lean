import ClassFile.Survey.Command
import ClassFile.Survey.Report

/-! A run of a survey, from the arguments to the output and the exit code. What lies at the paths is given
as a function, so that a run can be made over any tree of files. -/

namespace ClassFile.Survey

/-- What a run leaves behind. -/
structure Outcome where
  exitCode : UInt32
  output : List String
  log : List LogLine

/-- The exit code of a run that could not start. -/
def cannotStart : UInt32 := 2

/-- The number of threads if none is given. -/
def defaultThreads : Nat := 1

/-- The line that tells the name and the version of the program. -/
def versionLine : String := "crema 0.1.0"

/-- The lines that tell how the program is used. -/
def helpLines : List String :=
  ["Reads and verifies Java class files.",
    "",
    "Usage: crema [OPTIONS] <PATHS>...",
    "",
    "Arguments:",
    "  <PATHS>...  Class files, or directories to search for class files",
    "",
    "Options:",
    "      --threads <THREADS>  The number of worker threads",
    "  -v, --verbose...         Log more, give twice for even more",
    "  -q, --quiet              Only log warnings and errors",
    "      --list               Print every verified type with the file it came from",
    "  -h, --help               Print help",
    "  -V, --version            Print version"]

/-- The files at some paths, or the first path at which there is nothing. -/
def discover (look : String → Option FileTree) : List String → Except String (List FoundFile)
  | [] => .ok []
  | path :: rest => do
    match look path with
    | none => throw path
    | some tree => return filesAt path tree ++ (← discover look rest)

/-- Keeps the lines of a log that are important enough. -/
def filterLog (level : Level) (lines : List LogLine) : List LogLine :=
  lines.filter fun line => (compare line.level level).isLE

/-- Looks at files that were found. -/
def surveyFiles (settings : Settings) (found : List FoundFile) : Outcome :=
  let files := found.map examine
  let report := Report.ofFiles files
  let types :=
    if settings.list then report.listing.map fun (name, path) => name ++ "\t" ++ path else []
  let threads := settings.threads.getD defaultThreads
  { exitCode := report.exitCode
    output := types ++ [report.summary.render]
    log := filterLog settings.level
      (.beginning found.length threads :: Report.empty.logFrom files) }

/-- Makes a survey. -/
def survey (look : String → Option FileTree) (settings : Settings) : Outcome :=
  match discover look settings.paths with
  | .error path =>
    { exitCode := cannotStart
      output := []
      log := filterLog settings.level [.missingPath path] }
  | .ok found => surveyFiles settings found

/-- Does what a command asks for. -/
def Command.run (look : String → Option FileTree) : Command → Outcome
  | .survey settings => ClassFile.Survey.survey look settings
  | .version => ⟨0, [versionLine], []⟩
  | .help => ⟨0, helpLines, []⟩

/-- A whole run. A command line that is not understood ends it before it starts. -/
def run (look : String → Option FileTree) (arguments : List String) : Outcome :=
  match Command.ofArguments arguments with
  | .error _ => ⟨cannotStart, [], []⟩
  | .ok command => command.run look

end ClassFile.Survey
