import ClassFile.Outline

/-! Class file versions and the platform releases they belong to. -/

namespace ClassFile

/-- The version of a class file. -/
structure Version where
  major : UInt16
  minor : UInt16
  deriving DecidableEq, Repr

/-- The platform releases whose class files can be read, oldest first. -/
inductive Release where
  | jdk1_1 | jdk1_2 | jdk1_3 | jdk1_4
  | jdk5 | jdk6 | jdk7 | jdk8 | jdk9 | jdk10 | jdk11 | jdk12 | jdk13 | jdk14
  | jdk15 | jdk16 | jdk17 | jdk18 | jdk19 | jdk20 | jdk21 | jdk22 | jdk23
  deriving DecidableEq, Repr

namespace Release

/-- All releases, oldest first. -/
def all : List Release :=
  [.jdk1_1, .jdk1_2, .jdk1_3, .jdk1_4, .jdk5, .jdk6, .jdk7, .jdk8, .jdk9, .jdk10, .jdk11, .jdk12,
    .jdk13, .jdk14, .jdk15, .jdk16, .jdk17, .jdk18, .jdk19, .jdk20, .jdk21, .jdk22, .jdk23]

/-- The major version of the oldest release. -/
def firstMajor : Nat := 45

/-- The release with a major version. Each release has one of its own, and they are consecutive. -/
def ofMajor? (major : UInt16) : Option Release :=
  if major.toNat < firstMajor then none else all[major.toNat - firstMajor]?

def major (release : Release) : Nat := firstMajor + all.idxOf release

def name : Release → String
  | .jdk1_1 => "Jdk1_1"
  | .jdk1_2 => "Jdk1_2"
  | .jdk1_3 => "Jdk1_3"
  | .jdk1_4 => "Jdk1_4"
  | release => "Jdk" ++ toString (release.major - 44)

end Release

/-- Why a version cannot be read. -/
inductive VersionFault where
  | unsupported (version : Version)
  | unsupportedMinor (version : Version)
  deriving DecidableEq, Repr

namespace Version

/-- The minor version of class files that depend on preview features. -/
def previewMinor : UInt16 := 0xffff

/-- The major version from which on the minor version is restricted. -/
def firstStrictMajor : UInt16 := 56

/-- The release a version belongs to. The minor version is free in older class files, and must be
zero or the preview mark in newer ones. -/
def release (version : Version) : Except VersionFault Release :=
  match Release.ofMajor? version.major with
  | none => .error (.unsupported version)
  | some release =>
    if firstStrictMajor ≤ version.major ∧ version.minor ≠ 0 ∧ version.minor ≠ previewMinor then
      .error (.unsupportedMinor version)
    else
      .ok release

def atLeast (version : Version) (major : UInt16) : Bool := major ≤ version.major

/-- Versions are ordered by their major and then by their minor version. -/
def compare (a b : Version) : Ordering :=
  (Ord.compare a.major b.major).then (Ord.compare a.minor b.minor)

def display (version : Version) : String :=
  toString version.major.toNat ++ "." ++ toString version.minor.toNat

end Version

def VersionFault.message : VersionFault → String
  | .unsupported version => "unsupported class file version " ++ version.display
  | .unsupportedMinor version =>
    "unsupported minor version " ++ toString version.minor.toNat ++ " for major version "
      ++ toString version.major.toNat ++ ", must be 0 or 65535"

end ClassFile
