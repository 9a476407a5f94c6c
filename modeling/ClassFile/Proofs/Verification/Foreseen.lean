import ClassFile.Proofs.Verification.Blaming

/-! The faults that say something about the code, and not that the verifier broke a promise to itself or
read behind the end of an instruction. Checks of local variables, of frames and of joins of paths find
no others. -/

namespace ClassFile

/-- A fault that says something about the code. -/
def CodeFault.Foreseen (fault : CodeFault) : Prop :=
  fault ≠ .notEnoughBytes ∧ ∀ broken, fault ≠ .internal broken

/-- An error that is no fault of code, or a foreseen one. -/
def Error.Foreseen (error : Error) : Prop := ∀ pc fault, error.fault = .code pc fault → fault.Foreseen

/-- A check that finds nothing but foreseen faults. -/
abbrev Foresees {α : Type} (result : Except CodeFault α) : Prop := FailsOnly CodeFault.Foreseen result

theorem Error.foreseen_code {places : List Place} {pc : UInt16} {fault : CodeFault} (h : fault.Foreseen) :
    Error.Foreseen ⟨places, .code pc fault⟩ := by
  rintro _ _ ⟨⟩
  exact h

theorem CodeFault.Plain.foreseen {fault : CodeFault} (h : fault.Plain) : fault.Foreseen := by
  constructor
  · rintro rfl
    exact h
  · rintro broken rfl
    exact h

theorem Locals.foresees_load (locals : Locals) (index : UInt16) (c : Category) :
    Foresees (locals.load index c) := locals.blames_load CodeFault.Plain.foreseen index c

theorem Locals.foresees_store (locals : Locals) (index : UInt16) (c : Category) :
    Foresees (locals.store index c) := locals.blames_store CodeFault.Plain.foreseen index c

theorem foresees_checkBinding (bindings : List LocalVariable) (pc index : UInt16) (c : Category) :
    Foresees (checkBinding bindings pc index c) :=
  blames_checkBinding CodeFault.Plain.foreseen bindings pc index c

theorem foresees_checkShape (expected found : List Category) : Foresees (checkShape expected found) :=
  blames_checkShape CodeFault.Plain.foreseen expected found

theorem foresees_joinItems (known other : List StackItem) : Foresees (joinItems known other) :=
  blames_joinItems CodeFault.Plain.foreseen known other

theorem Premises.foresees_arrivalOf (p : Premises) (frame : StackMapFrame) :
    Foresees (p.arrivalOf frame) := p.blames_arrivalOf CodeFault.Plain.foreseen frame

theorem Setting.foresees_elementType (kind : ElementKind) (array : StackItem) :
    Foresees (Setting.elementType kind array) :=
  Setting.blames_elementType CodeFault.Plain.foreseen kind array

namespace Pass

theorem foresees_arrivalAfterTransfer (p : Premises) (pass : Pass) (pc : UInt16) :
    Foresees (pass.arrivalAfterTransfer p pc) :=
  blames_arrivalAfterTransfer CodeFault.Plain.foreseen p pass pc

theorem foresees_branch (t : Transition) (pass : Pass) (target : UInt16) :
    Foresees (Pass.branch t pass target) := blames_branch CodeFault.Plain.foreseen t pass target

theorem foresees_start (p : Premises) : Foresees (Pass.start p) :=
  blames_start CodeFault.Plain.foreseen p

end Pass

end ClassFile
