import ClassFile.AttributeTable
import ClassFile.Proofs.Outcome

/-! What readers of parts of a class file can be blamed for. Of interest are properties that only a fault of
code can lack. A reader that looks at no code has no other errors, and one that is made of other readers has
those of its parts. -/

namespace ClassFile

namespace Blames

theorem ofExcept {α : Type} {P : Error → Prop} {result : Except Error α} (h : FailsOnly P result) :
    Blames P (FileReader.ofExcept result) := by
  cases result with
  | ok value => exact pure value
  | error error => exact .throw (h error rfl)

end Blames

theorem Reader.comesTo_runOn {ε α : Type} {result : α → Prop} {P : ε → Prop} (contents : Cursor)
    {reader : Reader ε α} (h : ComesTo reader result P) : ComesTo (runOn contents reader) result P := by
  intro cursor _
  have hrun := h contents trivial
  unfold runOn
  cases hreader : reader contents with
  | ok value after =>
      rw [hreader] at hrun
      exact hrun
  | error error after =>
      rw [hreader] at hrun
      exact hrun

/-- A fault that is about the code as it was decoded, and neither about the number of its bytes nor about the
verifier itself. -/
def CodeFault.Plain : CodeFault → Prop
  | .notEnoughBytes | .wrongCodeLength .. | .internal _ => False
  | _ => True

/-- A property of errors that only faults of instructions can lack. All errors have it that are no faults of
code, or plain ones, and the place of an error is no part of it. -/
structure Error.OfInstructions (P : Error → Prop) : Prop where
  others : ∀ error, (∀ pc fault, error.fault ≠ .code pc fault) → P error
  plain : ∀ pc fault, fault.Plain → P ⟨[], .code pc fault⟩
  within : ∀ place error, P error → P { error with places := place :: error.places }

namespace Error.OfInstructions

variable {α β : Type} {P : Error → Prop} (hP : OfInstructions P)

include hP

theorem structural (fault : StructureFault) : P ⟨[], .structural fault⟩ := by
  apply hP.others
  rintro pc found ⟨⟩

theorem pool (located : Pool.Located) : P ⟨[], .pool located⟩ := by
  apply hP.others
  rintro pc found ⟨⟩

theorem truncated (offset wanted : Nat) : P ⟨[], .truncated offset wanted⟩ := by
  apply hP.others
  rintro pc found ⟨⟩

theorem failStructure (fault : StructureFault) : Blames P (FileReader.failStructure fault : FileReader α) :=
  .throw (hP.structural fault)

theorem ofPool (result : Except Pool.Located α) : Blames P (FileReader.ofPool result) := by
  cases result with
  | ok value => exact .pure value
  | error located => exact .throw (hP.pool located)

theorem inPlace (place : Place) {reader : FileReader α} {result : α → Prop} (h : ComesTo reader result P) :
    ComesTo (FileReader.within place reader) result P := by
  intro cursor _
  have hrun := h cursor trivial
  unfold FileReader.within
  cases hreader : reader cursor with
  | ok value after =>
      rw [hreader] at hrun
      exact hrun
  | error error after =>
      rw [hreader] at hrun
      exact hP.within place error hrun

theorem finish (what : String) : Blames P (FileReader.finish what) := by
  refine .get_bind fun cursor => ?_
  split
  · exact hP.failStructure _
  · exact .pure ()

theorem fillOnce [Outlined α] (attributes : List Attribute) (old : Option α) (new : α) :
    Blames P (FileReader.fillOnce attributes old new) := by
  cases old with
  | none => exact .pure _
  | some old => exact hP.inPlace _ (hP.failStructure _)

theorem bytes (n : Nat) : Blames P (Reader.bytes n : FileReader (List UInt8)) := by
  intro cursor _
  unfold Reader.bytes
  split
  · exact hP.truncated _ _
  · trivial

theorem take (n : Nat) : Blames P (Reader.take n : FileReader Cursor) := by
  intro cursor _
  unfold Reader.take
  split
  · exact hP.truncated _ _
  · trivial

theorem skipRest : Blames P (Reader.skipRest : FileReader Unit) :=
  .get_bind fun _ => .bind (hP.bytes _) fun _ => .pure ()

theorem u8 : Blames P (Reader.u8 : FileReader UInt8) := .bind (hP.bytes 1) fun _ => .pure _

theorem u16 : Blames P (Reader.u16 : FileReader UInt16) := .bind (hP.bytes 2) fun _ => .pure _

theorem u32 : Blames P (Reader.u32 : FileReader UInt32) := .bind (hP.bytes 4) fun _ => .pure _

theorem list {item : FileReader α} (h : Blames P item) : Blames P (Reader.list item) :=
  .bind hP.u16 fun _ => h.collect _

/-- An entry of a constant pool at an index that is read. -/
theorem atIndex (resolve : UInt16 → Except Pool.Located α) {next : α → FileReader β}
    (h : ∀ a, Blames P (next a)) :
    Blames P (do next (← FileReader.ofPool (resolve (← Reader.u16)))) :=
  .bind hP.u16 fun index => .bind (hP.ofPool (resolve index)) h

theorem frame (pool : Pool) (location : Location) (version : Version) :
    Blames P (AttributeTable.frame pool location version) := by
  refine hP.atIndex pool.utf8At fun name => .bind hP.u32 fun length => .bind (hP.take _) fun contents => ?_
  split
  · exact .pure _
  · split
    · exact hP.failStructure _
    · exact .pure _

theorem attributes (pool : Pool) (location : Location) (version : Version)
    {add : α → Attribute → FileReader α} (hadd : ∀ so found, Blames P (add so found)) (none : α) :
    Blames P (AttributeTable.read pool location version add none) := by
  refine .bind hP.u16 fun count => .iterate (fun so => ?_) none _
  refine .bind (hP.frame pool location version) fun framed => ?_
  cases framed with
  | none => exact .pure so
  | some framed =>
      obtain ⟨found, contents⟩ := framed
      have hone : Blames P (do
          let after ← add so found
          FileReader.finish (found.name ++ " attribute")
          return after : FileReader α) :=
        .bind (hadd so found) fun after => .bind (hP.finish _) fun _ => .pure after
      exact Reader.comesTo_runOn contents hone

end Error.OfInstructions

end ClassFile
