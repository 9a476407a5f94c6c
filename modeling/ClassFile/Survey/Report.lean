import ClassFile.Survey.FileTree
import ClassFile.Survey.Log

/-! The report of a survey: which types were verified, the file that each of them is taken from, and how
many files failed. Of the files that declare the same type the one with the least path is kept, so the order
in which the files are looked at matters to nothing but how equal paths are spelled. -/

namespace ClassFile.Survey

/-- A file that was looked at. -/
structure Examined where
  path : String
  result : Except Error TypeDecl
  milestones : List Milestone

/-- A type, and the file that it is taken from. -/
structure Kept where
  path : String
  decl : TypeDecl

/-- What is known after some files. -/
structure Report where
  files : Nat
  kept : List Kept
  failures : Nat

/-- The numbers at the end of a report. -/
structure Summary where
  files : Nat
  types : Nat
  methods : Nat
  instructions : Nat
  failures : Nat
  deriving DecidableEq, Repr

/-- Looks at a file. Where the reader stops at an overflow, the program comes to no report at all; here such
a file is taken as refused. -/
def examine (file : FoundFile) : Examined :=
  let (result, milestones) := TypeDecl.trace false file.contents
  ⟨file.path, result, milestones⟩

/-- Adds a type to those that are kept. If it is there already, the file that is not kept is returned. -/
def place (new : Kept) : List Kept → List Kept × Option String
  | [] => ([new], none)
  | old :: rest =>
    if old.decl.name = new.decl.name then
      if comparePaths new.path old.path = .lt then (new :: rest, some old.path)
      else (old :: rest, some new.path)
    else
      let (rest, repeated) := place new rest
      (old :: rest, repeated)

namespace Report

/-- What is known at the start. -/
def empty : Report := ⟨0, [], 0⟩

/-- Adds a file, and returns what there is to say about it. -/
def record (report : Report) (file : Examined) : Report × List LogLine :=
  match file.result with
  | .error error =>
    (⟨report.files + 1, report.kept, report.failures + 1⟩, [.failed file.path error])
  | .ok decl =>
    let verified := LogLine.verified decl.name file.path
    match place ⟨file.path, decl⟩ report.kept with
    | (kept, none) => (⟨report.files + 1, kept, report.failures⟩, [verified])
    | (kept, some path) =>
      (⟨report.files + 1, kept, report.failures + 1⟩, [verified, .repeated decl.name path])

def ofFiles (files : List Examined) : Report :=
  files.foldl (fun report file => (report.record file).1) empty

/-- What there is to say about some files, starting with a report. -/
def logFrom (report : Report) : List Examined → List LogLine
  | [] => []
  | file :: rest =>
    let (next, lines) := report.record file
    file.milestones.map LogLine.ofMilestone ++ lines ++ logFrom next rest

/-- The types by name, each with the path of its file. -/
def listing (report : Report) : List (String × String) :=
  (report.kept.map fun kept => (kept.decl.name.display, kept.path)).mergeSort fun a b =>
    ((compare a.1 b.1).then (comparePaths a.2 b.2)).isLE

/-- The numbers of a report. Only the types that are kept are counted. -/
def summary (report : Report) : Summary where
  files := report.files
  types := report.kept.length
  methods := report.kept.foldr (fun kept n => kept.decl.methods.length + n) 0
  instructions := report.kept.foldr (fun kept n => kept.decl.instructionCount + n) 0
  failures := report.failures

/-- The exit code that tells whether anything failed. -/
def exitCode (report : Report) : UInt32 := if report.failures = 0 then 0 else 1

end Report

/-- The written form of a summary. -/
def Summary.render (s : Summary) : String :=
  toString s.files ++ " files, " ++ toString s.types ++ " types, " ++ toString s.methods
    ++ " methods, " ++ toString s.instructions ++ " instructions verified, "
    ++ toString s.failures ++ " failures"

end ClassFile.Survey
