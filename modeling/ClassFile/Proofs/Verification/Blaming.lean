import ClassFile.Proofs.Blaming
import ClassFile.Verification.Pass

/-! What the checks of local variables, of frames and of joins of paths can be blamed for. Their faults are
plain: they are about what the machine holds or about an offset. -/

namespace ClassFile

variable {P : CodeFault → Prop} (hP : ∀ {fault : CodeFault}, fault.Plain → P fault)

include hP

namespace Locals

theorem blames_checkIndex (locals : Locals) (index : UInt16) (c : Category) :
    FailsOnly P (locals.checkIndex index c) := by
  unfold checkIndex
  dsimp only
  split
  · exact .error (hP trivial)
  · exact .ok ()

theorem blames_load (locals : Locals) (index : UInt16) (c : Category) :
    FailsOnly P (locals.load index c) := by
  refine .bind (locals.blames_checkIndex hP index c) fun _ _ => ?_
  split
  · exact .ok ()
  · split
    · exact .error (hP trivial)
    · split
      · exact .error (hP trivial)
      · exact .ok ()
  · exact .error (hP trivial)

theorem blames_store (locals : Locals) (index : UInt16) (c : Category) :
    FailsOnly P (locals.store index c) :=
  .bind (locals.blames_checkIndex hP index c) fun _ _ => .ok _

theorem blames_storeAll (locals : Locals) (index : UInt16) (categories : List Category) :
    FailsOnly P (locals.storeAll index categories) := by
  induction categories generalizing locals index with
  | nil => exact .ok locals
  | cons c rest ih => exact .bind (locals.blames_store hP index c) fun stored _ => ih stored _

theorem blames_storeFrame (locals : Locals) (index : UInt16) (types : List VerificationType) :
    FailsOnly P (locals.storeFrame index types) := by
  induction types generalizing locals index with
  | nil => exact .ok locals
  | cons type rest ih =>
      unfold storeFrame
      dsimp only
      split
      · exact .error (hP trivial)
      · split
        · exact ih locals _
        · exact .bind (locals.blames_store hP index _) fun stored _ => ih stored _

end Locals

theorem blames_checkBinding (bindings : List LocalVariable) (pc index : UInt16) (c : Category) :
    FailsOnly P (checkBinding bindings pc index c) := by
  unfold checkBinding
  dsimp only
  split
  · exact .ok ()
  · exact .error (hP trivial)

theorem blames_checkShape (expected found : List Category) : FailsOnly P (checkShape expected found) := by
  unfold checkShape
  split
  · exact .ok ()
  · exact .error (hP trivial)

theorem blames_joinItems (known other : List StackItem) : FailsOnly P (joinItems known other) :=
  .bind (blames_checkShape hP _ _) fun _ _ => .ok _

theorem OperandStack.blames_joinWithin (maxStack : UInt16) (known other : List StackItem) :
    FailsOnly P (joinWithin maxStack known other) := by
  rw [joinWithin_eq]
  split
  · exact .error (hP trivial)
  · exact blames_joinItems hP known other

theorem blames_checkLoop (entered incoming : Locals) (body : List Instruction) :
    FailsOnly P (checkLoop entered incoming body) := by
  unfold checkLoop
  split
  · exact .ok ()
  · exact .error (hP trivial)

theorem StackItem.blames_ofVerificationType (type : VerificationType) (pc : UInt16) :
    FailsOnly P (StackItem.ofVerificationType type pc) := by
  cases type with
  | top => exact .error (hP trivial)
  | _ => exact .ok _

theorem Premises.blames_arrivalOf (p : Premises) (frame : StackMapFrame) :
    FailsOnly P (p.arrivalOf frame) :=
  .bind (.mapM fun type => StackItem.blames_ofVerificationType hP type _) fun _ _ =>
    .bind (Locals.blames_storeFrame hP _ _ _) fun _ _ => .ok _

theorem Setting.blames_elementType (kind : ElementKind) (array : StackItem) :
    FailsOnly P (Setting.elementType kind array) := by
  unfold Setting.elementType
  split
  · split
    · split
      · exact .ok _
      · exact .error (hP trivial)
    · exact .error (hP trivial)
  · exact .ok none

namespace Pass

theorem blames_arrivalAfterTransfer (p : Premises) (pass : Pass) (pc : UInt16) :
    FailsOnly P (pass.arrivalAfterTransfer p pc) := by
  unfold arrivalAfterTransfer
  split
  · exact p.blames_arrivalOf hP _
  · exact .bind (p.blames_arrivalOf hP _) fun _ _ => .bind (blames_checkShape hP _ _) fun _ _ => .ok _
  · exact .ok _
  · exact .ok _

theorem blames_branch (t : Transition) (pass : Pass) (target : UInt16) :
    FailsOnly P (Pass.branch t pass target) := by
  unfold Pass.branch
  split
  · unfold branchBack
    dsimp only
    split
    · exact .error (hP trivial)
    · exact .bind (blames_checkShape hP _ _) fun _ _ => .bind (blames_checkLoop hP _ _ _) fun _ _ => .ok _
  · unfold branchForward
    split
    · exact .ok _
    · exact .bind (OperandStack.blames_joinWithin hP _ _ _) fun _ _ => .ok _

theorem blames_start (p : Premises) : FailsOnly P (Pass.start p) :=
  .bind (Locals.blames_storeAll hP _ _ _) fun _ _ => .ok _

end Pass

end ClassFile
