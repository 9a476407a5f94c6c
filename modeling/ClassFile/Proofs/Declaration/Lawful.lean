import ClassFile.Proofs.Declaration.MethodCode
import ClassFile.Proofs.Instruction.Lawful

/-! The rules for what a class file takes from its pool. A class file that is accepted obeys them in the code
of all its methods and in its bootstrap methods. -/

namespace ClassFile

open FileReader Reader

variable {pool : Pool} {version : Version} {bootstraps : Nat}

/-- The rules for a bootstrap method: those for its handle and its arguments. -/
structure BootstrapMethod.LawfulIn (version : Version) (bootstraps : Nat) (bootstrap : BootstrapMethod) :
    Prop where
  handle : bootstrap.handle.LawfulIn version
  arguments : ∀ argument ∈ bootstrap.arguments, argument.LawfulIn version bootstraps

theorem BootstrapMethod.gives_read (hpool : pool.Approved version bootstraps) :
    Gives (BootstrapMethod.LawfulIn version bootstraps) (BootstrapMethod.read pool) := by
  have hargument : Gives (Loadable.LawfulIn version bootstraps)
      (do pool.loadableAt (← u16) : FileReader Loadable) :=
    .skip fun index => .mono (gives_ofPool _) (fun _ => hpool.loadableAt) fun _ h => h
  refine .skip fun index => .bind (gives_ofPool _) fun handle hhandle => ?_
  refine .bind (.skip fun count => hargument.collect _) fun arguments harguments => ?_
  exact .pure ⟨hpool.methodHandleAt hhandle, harguments⟩

namespace TypeAttributes

/-- All bootstrap methods that were found obey their rules. -/
def Lawful (version : Version) (bootstraps : Nat) (so : TypeAttributes) : Prop :=
  ∀ methods, so.bootstrapMethods = some methods → ∀ bootstrap ∈ methods, bootstrap.LawfulIn version bootstraps

theorem gives_add (hpool : pool.Approved version bootstraps) (so : TypeAttributes) (found : Attribute)
    (hso : so.Lawful version bootstraps) : Gives (Lawful version bootstraps) (add pool so found) := by
  unfold add
  split
  case h_5 =>
    refine .bind (.skip fun count => (BootstrapMethod.gives_read hpool).collect _) fun methods hmethods => ?_
    refine .bind (gives_fillOnce _ _ _) fun filled hfilled => .pure ?_
    rintro _ rfl
    cases hfilled
    exact hmethods
  case h_1 | h_2 | h_6 => exact .skip fun _ => .skip fun _ => .skip fun _ => .pure hso
  case h_3 | h_4 | h_7 | h_8 => exact .skip fun _ => .skip fun _ => .pure hso
  case h_9 | h_10 => exact .pure hso
  case h_11 => exact .skip fun _ => .pure hso

end TypeAttributes

namespace TypeDecl

variable {keepBytes : Bool} {layout : ClassLayout} {decl : TypeDecl}

theorem ReadFrom.approved (h : decl.ReadFrom keepBytes layout) :
    layout.pool.Approved decl.version decl.bootstrapMethods.length where
  writable := h.version ▸ layout.poolWritable
  validated := h.version ▸ h.validated
  bootstrapCount := Nat.lt_of_le_of_lt h.bootstrapCount (by decide)
  bootstraps := h.bootstraps

theorem ReadFrom.lawful_bootstraps (h : decl.ReadFrom keepBytes layout) :
    ∀ bootstrap ∈ decl.bootstrapMethods,
      bootstrap.LawfulIn decl.version decl.bootstrapMethods.length := by
  obtain ⟨so, hsaid, hmethods⟩ := h.said
  have hnone : TypeAttributes.none.Lawful decl.version decl.bootstrapMethods.length := nofun
  have hso := AttributeTable.foldlM_said?_keeps (TypeAttributes.gives_add h.approved) hnone hsaid
  rw [hmethods]
  cases hfound : so.bootstrapMethods with
  | none => exact fun _ hmem => absurd hmem List.not_mem_nil
  | some methods =>
      rw [hmethods, hfound] at hso
      exact hso methods hfound

theorem ReadFrom.lawful_code (h : decl.ReadFrom keepBytes layout) {method : MethodDecl}
    (hmethod : method ∈ decl.methods) {code : Code} (hcode : code ∈ method.code) :
    ∀ v ∈ code.instructions, v.instruction.LawfulIn decl.version decl.bootstrapMethods.length := by
  obtain ⟨_, _, _, _, haccepted⟩ := h.code_accepted hmethod hcode
  exact h.version ▸ haccepted.lawful (h.version ▸ h.approved)

/-- A class file that is accepted obeys the rules of its version for everything that it takes from its pool:
in all instructions of all methods, and in the handles and the arguments of its bootstrap methods. -/
theorem ofBytes_lawful {bytes : List UInt8} (h : ofBytes keepBytes bytes = .ok decl) :
    (∀ method ∈ decl.methods, ∀ code ∈ method.code, ∀ v ∈ code.instructions,
      v.instruction.LawfulIn decl.version decl.bootstrapMethods.length) ∧
    ∀ bootstrap ∈ decl.bootstrapMethods,
      bootstrap.LawfulIn decl.version decl.bootstrapMethods.length := by
  obtain ⟨layout, _, hread⟩ := ofBytes_spells h
  exact ⟨fun _ hmethod _ hcode => hread.lawful_code hmethod hcode, hread.lawful_bootstraps⟩

/-- A class file with a method that loads a class as a constant and drops it. -/
theorem loadedClass_lawful :
    ∃ decl, ofBytes false (sampleClass [0x12, 2, 0x57, 0xb1]) = .ok decl ∧ decl.instructionCount = 3 ∧
      (∀ method ∈ decl.methods, ∀ code ∈ method.code, ∀ v ∈ code.instructions,
        v.instruction.LawfulIn decl.version decl.bootstrapMethods.length) ∧
      ∀ bootstrap ∈ decl.bootstrapMethods,
        bootstrap.LawfulIn decl.version decl.bootstrapMethods.length := by
  have hcount : (match ofBytes false (sampleClass [0x12, 2, 0x57, 0xb1]) with
      | .ok decl => some decl.instructionCount
      | .error _ => none) = some 3 := by
    decide +kernel
  cases hrun : ofBytes false (sampleClass [0x12, 2, 0x57, 0xb1]) with
  | error error =>
      rw [hrun] at hcount
      cases hcount
  | ok decl =>
      rw [hrun] at hcount
      exact ⟨decl, rfl, Option.some.inj hcount, ofBytes_lawful hrun⟩

end TypeDecl

end ClassFile
