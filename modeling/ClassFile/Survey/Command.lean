import ClassFile.Survey.Log

/-! The command line of a survey. -/

namespace ClassFile.Survey

/-- What a command line asks for. -/
structure Settings where
  paths : List String
  /-- The number of threads, if it is given. -/
  threads : Option Nat
  level : Level
  list : Bool
  deriving DecidableEq

/-- A command line that is understood. -/
inductive Command where
  | survey (settings : Settings)
  | version
  | help
  deriving DecidableEq

/-- What is wrong with a command line. -/
inductive UsageFault where
  | unknownOption (option : String)
  | missingValue (option : String)
  | unneededValue (option : String)
  | invalidThreads (value : String)
  | repeated (option : String)
  | quietAndVerbose
  | emptyPath
  | noPath
  deriving DecidableEq

def UsageFault.message : UsageFault → String
  | .unknownOption option => "unexpected argument " ++ option
  | .missingValue option => "a value is required for " ++ option
  | .unneededValue option => "no value is expected for " ++ option
  | .invalidThreads value => "invalid number of threads: " ++ value
  | .repeated option => option ++ " cannot be used more than once"
  | .quietAndVerbose => "--quiet cannot be used with --verbose"
  | .emptyPath => "a path cannot be empty"
  | .noPath => "at least one path is required"

/-- What was given so far. -/
structure Given where
  /-- The paths so far, the last one first. -/
  paths : List String
  threads : Option Nat
  verbose : Nat
  quiet : Bool
  list : Bool

/-- What to do after an argument. -/
inductive Reaction where
  | go (so : Given)
  /-- The next argument is the number of threads. -/
  | expectThreads (so : Given)
  /-- All further arguments are paths. -/
  | onlyPaths (so : Given)
  | done (command : Command)

namespace Given

/-- Nothing is given yet. -/
def nothing : Given := ⟨[], none, 0, false, false⟩

/-- The largest number of threads that can be given. -/
def maxThreads : Nat := 0xffffffffffffffff

/-- Takes a positive decimal number, which may have a sign. -/
def threadsOf? (value : String) : Option Nat :=
  let digits := match value.toList with
    | '+' :: rest => rest
    | all => all
  if digits.isEmpty || !digits.all Char.isDigit then none
  else
    let n := digits.foldl (fun n c => n * 10 + (c.toNat - '0'.toNat)) 0
    if n = 0 ∨ maxThreads < n then none else some n

def addPath (so : Given) (path : String) : Except UsageFault Given :=
  if path = "" then .error .emptyPath else .ok { so with paths := path :: so.paths }

/-- Adds the number of threads. -/
def addThreads (so : Given) (value : String) : Except UsageFault Given :=
  if so.threads.isSome then .error (.repeated "--threads")
  else
    match threadsOf? value with
    | none => .error (.invalidThreads value)
    | some n => .ok { so with threads := some n }

/-- Adds the wish to be told about problems only. -/
def addQuiet (so : Given) : Except UsageFault Given :=
  if so.quiet then .error (.repeated "--quiet") else .ok { so with quiet := true }

/-- Adds the wish to see the types. -/
def addList (so : Given) : Except UsageFault Given :=
  if so.list then .error (.repeated "--list") else .ok { so with list := true }

/-- Adds the wish to be told more. -/
def addVerbose (so : Given) : Given := { so with verbose := so.verbose + 1 }

/-- Takes single letter options that stand in one argument. -/
def takeLetters (so : Given) : List Char → Except UsageFault Reaction
  | [] => .ok (.go so)
  | 'v' :: rest => so.addVerbose.takeLetters rest
  | 'q' :: rest =>
    match so.addQuiet with
    | .error fault => .error fault
    | .ok so => so.takeLetters rest
  | 'V' :: _ => .ok (.done .version)
  | 'h' :: _ => .ok (.done .help)
  | c :: _ => .error (.unknownOption ("-" ++ c.toString))

/-- Takes an option that is written out. -/
def takeOption (so : Given) (name : String) (value : Option String) :
    Except UsageFault Reaction :=
  match name, value with
  | "threads", some value => .go <$> so.addThreads value
  | "threads", none =>
    if so.threads.isSome then .error (.repeated "--threads") else .ok (.expectThreads so)
  | "verbose", none => .ok (.go so.addVerbose)
  | "quiet", none => .go <$> so.addQuiet
  | "list", none => .go <$> so.addList
  | "version", none => .ok (.done .version)
  | "help", none => .ok (.done .help)
  | name, some _ =>
    if ["verbose", "quiet", "list", "version", "help"].contains name then
      .error (.unneededValue ("--" ++ name))
    else
      .error (.unknownOption ("--" ++ name))
  | name, none => .error (.unknownOption ("--" ++ name))

/-- Splits an option from its value, which stands behind an equals sign. -/
def splitValue (option : List Char) : String × Option String :=
  let name := String.ofList (option.takeWhile (· ≠ '='))
  match option.dropWhile (· ≠ '=') with
  | [] => (name, none)
  | _ :: value => (name, some (String.ofList value))

def take (so : Given) (argument : String) : Except UsageFault Reaction :=
  match argument.toList with
  | ['-', '-'] => .ok (.onlyPaths so)
  | '-' :: '-' :: option =>
    let (name, value) := splitValue option
    so.takeOption name value
  | '-' :: c :: letters => so.takeLetters (c :: letters)
  | _ => .go <$> so.addPath argument

/-- The level of the log that is asked for. -/
def level (so : Given) : Level :=
  if so.quiet then .warn
  else
    match so.verbose with
    | 0 => .info
    | 1 => .debug
    | _ => .trace

/-- What is asked for in the end. -/
def finish (so : Given) : Except UsageFault Command :=
  if so.paths.isEmpty then .error .noPath
  else if so.quiet && 0 < so.verbose then .error .quietAndVerbose
  else .ok (.survey ⟨so.paths.reverse, so.threads, so.level, so.list⟩)

/-- Takes the arguments one after the other. -/
def takeAll (so : Given) : List String → Except UsageFault Command
  | [] => so.finish
  | argument :: rest => do
    match ← so.take argument with
    | .go so => so.takeAll rest
    | .onlyPaths so => (← rest.foldlM addPath so).finish
    | .done command => return command
    | .expectThreads so =>
      match rest with
      | [] => throw (.missingValue "--threads")
      | value :: rest =>
        if value.startsWith "-" then throw (.missingValue "--threads")
        else (← so.addThreads value).takeAll rest

end Given

/-- The command that the arguments of a command line make. -/
def Command.ofArguments (arguments : List String) : Except UsageFault Command :=
  Given.nothing.takeAll arguments

end ClassFile.Survey
