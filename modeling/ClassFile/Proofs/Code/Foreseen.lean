import ClassFile.Proofs.Code.Blaming
import ClassFile.Proofs.FileReader
import ClassFile.Proofs.Instruction.Tiling

/-! Reading the code of a method finds nothing but foreseen errors. The tables beside the instructions name
offsets that are checked, and the instructions were decoded from a listing of bytes whose number fits into
sixteen bits. -/

namespace ClassFile

open FileReader

theorem RawCode.foreseen_check {raw : RawCode} (hsize : raw.bytes.length ≤ 0xffff) (pool : Pool)
    (method : MethodContext) (keepBytes : Bool) :
    FailsOnly Error.Foreseen (raw.check pool method keepBytes) :=
  RawCode.blames_check Error.foreseen_ofInstructions (Premises.foreseen_verify (foresees_listing hsize))

theorem Code.foreseeing_read (pool : Pool) (method : MethodContext) (keepBytes : Bool) :
    Foreseeing (Code.read pool method keepBytes) := by
  have hreading : Foreseeing (RawCode.read pool method) := Error.foreseen_ofInstructions.rawCode pool method
  have hraw : Finds (RawCode.read pool method) fun raw => raw.bytes.length ≤ 0xffff :=
    .of_foreseeing hreading fun _ _ _ hread => (RawCode.read_length hread).2
  exact ComesTo.bind hraw fun raw hsize =>
    foreseeing_ofExcept (RawCode.foreseen_check hsize pool method keepBytes)

/-- Code was read from an attribute of a method, with the pool and the version of the class file. -/
def Code.ReadWith (pool : Pool) (version : Version) (keepBytes : Bool) (code : Code) : Prop :=
  ∃ method source rest, method.version = version ∧ Code.read pool method keepBytes source = .ok code rest

theorem Code.finds_read (pool : Pool) (method : MethodContext) (keepBytes : Bool) :
    Finds (Code.read pool method keepBytes) fun code => code.ReadWith pool method.version keepBytes :=
  .of_foreseeing (Code.foreseeing_read pool method keepBytes) fun source _ rest hread =>
    ⟨method, source, rest, rfl, hread⟩

end ClassFile
