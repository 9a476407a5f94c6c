import ClassFile.Code

/-! The source lines of instructions. The line of an offset is that of the entry with the greatest start
at or before it; of entries with the same start the last one counts. -/

namespace ClassFile

/-- Line numbers in the order of their starts, where entries with the same start keep their order. -/
structure LineIndex where
  entries : Array LineNumber

namespace LineIndex

def ofLines (lines : List LineNumber) : LineIndex :=
  ⟨(lines.mergeSort fun a b => a.start ≤ b.start).toArray⟩

/-- The first place, from `low` up to `high`, whose entry starts behind an offset. All places before
`low` start at or before the offset, all from `high` on behind it. -/
def firstBehind (index : LineIndex) (pc : UInt16) (low high : Nat) : Nat :=
  if low < high then
    let middle := (low + high) / 2
    match index.entries[middle]? with
    | none => firstBehind index pc low middle
    | some entry =>
      if entry.start ≤ pc then firstBehind index pc (middle + 1) high
      else firstBehind index pc low middle
  else
    low
  termination_by high - low

/-- The source line of an offset. -/
def lineAt? (index : LineIndex) (pc : UInt16) : Option UInt16 :=
  match index.firstBehind pc 0 index.entries.size with
  | 0 => none
  | behind + 1 => index.entries[behind]?.map LineNumber.line

end LineIndex

end ClassFile
