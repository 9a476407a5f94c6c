import ClassFile.Declaration.Reading

/-! The log of a survey. -/

namespace ClassFile.Survey

/-- How important a log line is. -/
inductive Level where
  | error | warn | info | debug | trace
  deriving DecidableEq, Ord, Repr

def Level.name : Level → String
  | .error => "ERROR"
  | .warn => "WARN"
  | .info => "INFO"
  | .debug => "DEBUG"
  | .trace => "TRACE"

/-- What a log line comes from. -/
inductive Speaker where
  | command | survey | reader | pool
  deriving DecidableEq, Repr

def Speaker.name : Speaker → String
  | .command => "crema"
  | .survey => "crema::driver"
  | .reader => "bean::class_reader"
  | .pool => "bean::pool"

/-- A line of the log. -/
structure LogLine where
  level : Level
  speaker : Speaker
  message : String
  deriving DecidableEq, Repr

namespace LogLine

/-- The written form of a line. -/
def render (line : LogLine) : String :=
  "[" ++ line.level.name ++ " " ++ line.speaker.name ++ "] " ++ line.message

/-- The line that tells of a milestone. -/
def ofMilestone : Milestone → LogLine
  | .version version release =>
    ⟨.trace, .reader,
      "reading class file of version " ++ version.display ++ " (" ++ release.name ++ ")"⟩
  | .pool count => ⟨.trace, .pool, "read constant pool with count " ++ toString count.toNat⟩
  | .method name descriptor =>
    ⟨.trace, .reader, "read method " ++ name.display ++ " " ++ descriptor.display⟩
  | .type name fields methods =>
    ⟨.debug, .reader,
      "read class " ++ name.display ++ " with " ++ toString fields ++ " fields and "
        ++ toString methods ++ " methods"⟩

/-- A path that is not there. -/
def missingPath (path : String) : LogLine :=
  ⟨.error, .command, "failed to search " ++ Text.quotedString path ++ " for class files"⟩

/-- The start of a survey. -/
def beginning (files threads : Nat) : LogLine :=
  ⟨.info, .survey,
    "verifying " ++ toString files ++ " class files on " ++ toString threads ++ " threads"⟩

/-- A file that is accepted. -/
def verified (name : ClassName) (path : String) : LogLine :=
  ⟨.debug, .survey, "verified " ++ name.display ++ " from " ++ Text.quotedString path⟩

/-- A file that declares a type which another file declares too. -/
def repeated (name : ClassName) (path : String) : LogLine :=
  ⟨.warn, .survey,
    "type " ++ name.display ++ " is declared again in " ++ Text.quotedString path
      ++ ", keeping the first declaration"⟩

/-- A file that is refused. -/
def failed (path : String) (error : Error) : LogLine :=
  ⟨.warn, .survey,
    Outline.separated ": " (("failed to verify " ++ Text.quotedString path) :: error.chain)⟩

end LogLine

end ClassFile.Survey
