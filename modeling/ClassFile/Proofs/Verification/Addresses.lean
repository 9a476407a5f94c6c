import ClassFile.Proofs.Verification.Agreement

/-! Return addresses come from calls of subroutines only. Where there are none, no instruction finds a return
address on the stack or leaves one. -/

namespace ClassFile

theorem VerificationType.stackCategory_ne (type : VerificationType) :
    type.stackCategory ≠ .returnAddress := by
  cases type <;> rintro ⟨⟩

theorem StackMapFrame.returnAddress_notMem_shape (frame : StackMapFrame) :
    .returnAddress ∉ frame.shape := by
  intro hmem
  obtain ⟨type, _, haddress⟩ := List.mem_map.mp hmem
  exact type.stackCategory_ne haddress

namespace Pass

variable {p : Premises} {pass : Pass} {pc : UInt16} {shape : List Category} {locals : Locals}

theorem Adopts.returnAddress_notMem (h : Adopts p pass pc shape locals)
    (harrivals : ∀ arrival, pass.arrivalAt? pc = some arrival → .returnAddress ∉ shapeOf arrival.items) :
    .returnAddress ∉ shape := by
  cases h with
  | frame found described agrees => exact StackMapFrame.returnAddress_notMem_shape _
  | arrival unframed found => exact harrivals _ found
  | nothing unframed unknown => split <;> decide

theorem Reached.returnAddress_notMem {seen : List ListedPlace} (h : Reached p seen pass)
    (hcalls : ∀ s ∈ pass.steps, s.instruction.isSubroutineCall = false) :
    ∀ s ∈ pass.steps, .returnAddress ∉ s.before.stack.shape ∧ .returnAddress ∉ s.after.stack.shape := by
  induction h with
  | start begins =>
      obtain ⟨_, _, hpass⟩ := bind_ok.mp begins
      cases hpass
      exact fun _ hmem => absurd hmem List.not_mem_nil
  | @step seen pass next place s before advances ih =>
      rw [advances.steps, List.forall_mem_cons] at hcalls ⊢
      have hearlier := ih hcalls.2
      have hcoherent := before.coherent
      refine ⟨?_, hearlier⟩
      have hbefore : .returnAddress ∉ s.before.stack.shape := by
        cases advances.enters with
        | falls falls joins handler =>
            rw [joins.shape_eq]
            cases hsteps : pass.steps with
            | nil =>
                rw [(hcoherent.begins hsteps).2.1]
                exact List.not_mem_nil
            | cons prior earlier =>
                have hprior : prior ∈ pass.steps := hsteps ▸ List.mem_cons_self
                have hshape := handOn_shape (hcoherent.follows prior earlier hsteps).2
                rw [hcalls.2 prior hprior, if_neg Bool.false_ne_true, List.append_nil] at hshape
                rw [← hshape]
                exact (hearlier prior hprior).2
        | jumps transfer adopts =>
            refine adopts.returnAddress_notMem fun arrival harrival => ?_
            obtain ⟨branching, hmem, htarget, hlt⟩ := hcoherent.caused _ _ harrival
            obtain ⟨arrival', harrival', hadmits⟩ := hcoherent.left branching hmem _ htarget hlt
            rw [Option.some.inj (harrival.symm.trans harrival'), hadmits.shape]
            exact (hearlier branching hmem).2
      exact ⟨hbefore, advances.performed.addresses hcalls.1 hbefore⟩

end Pass

/-- Code without calls of subroutines finds no return addresses on the stack. -/
theorem Accepted.returnAddress_notMem {pool : Pool} {method : MethodContext} {source rest : Cursor}
    {code : Code} {raw : RawCode} {steps : List PassStep}
    (h : Accepted pool method source rest code raw steps)
    (hcalls : ∀ s ∈ steps, s.instruction.isSubroutineCall = false) {s : PassStep} (hs : s ∈ steps) :
    .returnAddress ∉ s.before.stack.shape := by
  obtain ⟨final, hreached, hfinal, _⟩ := h.reached
  have hmem : ∀ s, s ∈ final.steps ↔ s ∈ steps := by
    intro s
    rw [hfinal, List.mem_reverse]
  exact (hreached.returnAddress_notMem (fun s hs => hcalls s ((hmem s).mp hs)) s ((hmem s).mpr hs)).1

end ClassFile
