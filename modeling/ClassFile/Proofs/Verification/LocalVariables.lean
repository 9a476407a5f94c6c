import ClassFile.Proofs.Instruction.LocalVariables
import ClassFile.Proofs.Instruction.Tiling
import ClassFile.Proofs.Verification.Accepted

/-! Verification of the instructions on a local variable. It depends on how such an instruction is written at
most through the offset behind it, at which stores look for the variables that are live. -/

namespace ClassFile

variable {pool : Pool} {method : MethodContext}

section Listed

variable {code : List UInt8}

/-- What the bytes at an offset of some code decode to. -/
def decodedAt (pool : Pool) (method : MethodContext) (code : List UInt8) (pc : UInt16) :
    Except CodeFault Decoded :=
  match code.drop pc.toNat with
  | [] => .error .notEnoughBytes
  | opcode :: operands => do
    let (operation, used) ←
      decodeWithin pool method (UInt16.ofNat code.length) pc opcode operands
    .ok ⟨operation, UInt16.ofNat (pc.toNat + 1 + used)⟩

/-- Performs what the bytes at an offset of some code decode to. -/
def performFrom (pool : Pool) (method : MethodContext) (bindings : List LocalVariable)
    (code : List UInt8) (pc : UInt16) : MachineOp Instruction := do
  let decoded ← decodedAt pool method code pc
  decoded.operation.perform ⟨method, bindings, pc, decoded.next⟩

theorem decodedAt_of_drop {pc : UInt16} {opcode : UInt8} {operands : List UInt8}
    (h : code.drop pc.toNat = opcode :: operands) :
    decodedAt pool method code pc =
      (decodeWithin pool method (UInt16.ofNat code.length) pc opcode operands).map
        fun (operation, used) => ⟨operation, UInt16.ofNat (pc.toNat + 1 + used)⟩ := by
  unfold decodedAt
  rw [h]
  dsimp only
  cases decodeWithin pool method (UInt16.ofNat code.length) pc opcode operands <;> rfl

theorem decodedAt_ofNat {pc : Nat} {opcode : UInt8} {operands : List UInt8} (hsize : code.length ≤ 0xffff)
    (h : code.drop pc = opcode :: operands) :
    decodedAt pool method code (UInt16.ofNat pc) =
      (decodeWithin pool method (UInt16.ofNat code.length) (UInt16.ofNat pc) opcode operands).map
        fun (operation, used) => ⟨operation, UInt16.ofNat (pc + 1 + used)⟩ := by
  have hlength := congrArg List.length h
  rw [List.length_drop, List.length_cons] at hlength
  have hpc : (UInt16.ofNat pc).toNat = pc := UInt16.toNat_ofNat_of_lt' (by change pc < 65536; omega)
  rw [decodedAt_of_drop (hpc.symm ▸ h), hpc]

/-- Places hold what the bytes at their offsets decode to. -/
theorem Lists.decoded_eq {pc : Nat} {bytes : List UInt8} {places : List ListedPlace}
    (h : Lists (decodeWithin pool method (UInt16.ofNat code.length)) pc bytes places)
    (hsize : code.length ≤ 0xffff) (hbytes : code.drop pc = bytes) :
    ∀ place ∈ places, place.decoded = decodedAt pool method code place.pc := by
  induction h with
  | done pc => simp
  | fault failed =>
      rw [List.forall_mem_singleton, decodedAt_ofNat hsize hbytes, failed]
      rfl
  | @next pc opcode operands operation used rest decoded behind ih =>
      rw [List.forall_mem_cons, decodedAt_ofNat hsize hbytes, decoded]
      refine ⟨rfl, ih ?_⟩
      rw [Nat.add_assoc, ← List.drop_drop, hbytes, Nat.add_comm, List.drop_succ_cons]

/-- The pass performs at a place what the bytes there decode to. -/
theorem performFrom_listed (p : Premises) (hsize : code.length ≤ 0xffff) {place : ListedPlace}
    (hplace : place ∈ listing pool p.method code) (before : Machine) :
    (place.decoded >>= fun decoded => Pass.performAt p place.pc decoded before) =
      match performFrom pool p.method p.localVariables code place.pc before with
      | .error fault _ => .error fault
      | .ok i after => .ok (i, after) := by
  have hdecoded := (lists_listing pool p.method code).decoded_eq hsize rfl place hplace
  unfold performFrom
  rw [← hdecoded]
  cases place.decoded with
  | error fault => rfl
  | ok decoded => rfl

end Listed

section Bindings

theorem findSome?_congr {α β : Type} {items : List α} {f g : α → Option β}
    (h : ∀ a ∈ items, f a = g a) : items.findSome? f = items.findSome? g := by
  induction items with
  | nil => rfl
  | cons a rest ih =>
      rw [List.forall_mem_cons] at h
      rw [List.findSome?_cons, List.findSome?_cons, h.1, ih h.2]

/-- A check against the variables depends on the offset only through those in the slot. -/
theorem checkBinding_congr {bindings : List LocalVariable} {pc pc' index : UInt16}
    (h : ∀ v ∈ bindings, v.index = index → v.isLiveAt pc = v.isLiveAt pc') (c : Category) :
    checkBinding bindings pc index c = checkBinding bindings pc' index c := by
  unfold checkBinding
  rw [findSome?_congr]
  intro v hv
  by_cases hindex : v.index = index
  · rw [h v hv hindex]
  · simp only [hindex, false_and, if_false]

/-- Instructions on a local variable look at the next offset only if they are stores. -/
theorem Instruction.perform_next {i : Instruction} (hlocal : i.localIndex?.isSome = true) {s : Setting}
    {next : UInt16}
    (hlive : ∀ kind index, i = .store kind index → ∀ v ∈ s.localVariables, v.index = index →
      v.isLiveAt s.next = v.isLiveAt next) :
    i.perform s = i.perform { s with next } := by
  cases i with
  | load | increment | ret => rfl
  | store kind index =>
      have hcheck := checkBinding_congr (hlive kind index rfl)
      unfold perform Setting.store
      simp only [hcheck]
  | _ => cases hlocal

end Bindings

/-- A way in which an instruction stands at an offset: bytes that write it, within some code. -/
structure Occurrence (pool : Pool) (method : MethodContext) (pc : UInt16) (i : Instruction) where
  before : List UInt8
  front : List UInt8
  behind : List UInt8
  start : before.length = pc.toNat
  encodes : Encodes pool method.version pc.toNat i front
  size : (before ++ front ++ behind).length ≤ 0xffff

namespace Occurrence

variable {pc : UInt16} {i : Instruction}

/-- The code that the instruction is part of. -/
def code (o : Occurrence pool method pc i) : List UInt8 := o.before ++ o.front ++ o.behind

/-- The offset behind the instruction. -/
def next (o : Occurrence pool method pc i) : UInt16 := UInt16.ofNat (pc.toNat + o.front.length)

theorem decodedAt_eq (o : Occurrence pool method pc i) (hlocal : i.localIndex?.isSome = true)
    (hret : ∀ index, i = .ret index → method.version.major < 51) :
    decodedAt pool method o.code pc = .ok ⟨.instruction i, o.next⟩ := by
  have hlegacy : ∀ index, i = .ret index → Profile.ofVersion method.version = .legacy := fun index h =>
    if_neg fun hmodern => UInt16.not_le.mpr (hret index h) (of_decide_eq_true hmodern)
  have hlength : (UInt16.ofNat o.code.length).toNat = o.code.length := toNat_length o.size
  have hroom : pc.toNat + o.front.length ≤ (UInt16.ofNat o.code.length).toNat := by
    rw [hlength, code, List.length_append, List.length_append, o.start]
    exact Nat.le_add_right _ _
  obtain ⟨opcode, operands, hfront, hdecode⟩ :=
    o.encodes.decode_local hlocal hlegacy hroom o.behind
  have hbytes : o.code.drop pc.toNat = opcode :: (operands ++ o.behind) := by
    rw [code, List.append_assoc, ← o.start, List.drop_left, hfront, List.cons_append]
  have hnext : o.next = UInt16.ofNat (pc.toNat + 1 + operands.length) := by
    rw [next, hfront, List.length_cons, Nat.add_assoc, Nat.add_comm 1]
  rw [decodedAt_of_drop hbytes, hnext]
  exact congrArg (Except.map _) hdecode

/-- Verification of the bytes is that of the instruction. -/
theorem performFrom_eq (o : Occurrence pool method pc i) (hlocal : i.localIndex?.isSome = true)
    (hret : ∀ index, i = .ret index → method.version.major < 51) (bindings : List LocalVariable) :
    performFrom pool method bindings o.code pc =
      (do i.perform ⟨method, bindings, pc, o.next⟩; return i) := by
  unfold performFrom
  rw [o.decodedAt_eq hlocal hret]
  rfl

/-- However an instruction on a local variable is written, verification comes to the same on every machine: the
same instruction or the same fault, and the same machine behind it. For stores the variables in the slot have to
be live behind both ways to write it, or behind none; the return from a subroutine is for old versions only. -/
theorem interchangeable (o o' : Occurrence pool method pc i) (hlocal : i.localIndex?.isSome = true)
    (hret : ∀ index, i = .ret index → method.version.major < 51) {bindings : List LocalVariable}
    (hlive : ∀ kind index, i = .store kind index → ∀ v ∈ bindings, v.index = index →
      v.isLiveAt o.next = v.isLiveAt o'.next) (machine : Machine) :
    performFrom pool method bindings o.code pc machine =
        performFrom pool method bindings o'.code pc machine ∧
      performFrom pool method bindings o.code pc machine =
        (do i.perform ⟨method, bindings, pc, o.next⟩; return i : MachineOp Instruction) machine := by
  have hperform : i.perform ⟨method, bindings, pc, o.next⟩ = i.perform ⟨method, bindings, pc, o'.next⟩ :=
    Instruction.perform_next hlocal hlive
  rw [o.performFrom_eq hlocal hret, o'.performFrom_eq hlocal hret, hperform]
  exact ⟨rfl, rfl⟩

/-- A store into the third variable, with an opcode of its own. -/
def shortStore : Occurrence samplePool sampleMethod 5 (.store .long 2) where
  before := [0x00, 0x00, 0x00, 0x00, 0x0a]
  front := [0x41]
  behind := [0xb1]
  start := rfl
  encodes := .sole rfl
  size := by decide

/-- The same store behind `wide`. -/
def wideStore : Occurrence samplePool sampleMethod 5 (.store .long 2) where
  before := [0x00, 0x00, 0x00, 0x00, 0x0a]
  front := [0xc4, 0x37, 0x00, 0x02]
  behind := [0xb1]
  start := rfl
  encodes := .wideLocalVariable (show Instruction.localOpcode? _ = some (0x37, 2) from rfl)
  size := by decide

/-- A variable that is live behind the store, and one in another slot that is so only behind the longer one. -/
def storedBindings : List LocalVariable :=
  [⟨6, 4, .ofString "sum", 2, some ⟨.primitive .long, 0⟩, none⟩,
    ⟨9, 1, .ofString "other", 0, some ⟨.primitive .int, 0⟩, none⟩]

/-- A machine with a `long` on the stack. -/
def longOnStack : Machine :=
  ⟨{ OperandStack.empty 2 with items := [.numeric .long ⟨4, .constant⟩], depth := 2 }, Locals.unknown 4⟩

theorem shortStore_wideStore :
    (∀ v ∈ storedBindings, v.index = 2 → v.isLiveAt shortStore.next = v.isLiveAt wideStore.next) ∧
      performFrom samplePool sampleMethod storedBindings shortStore.code 5 longOnStack =
        performFrom samplePool sampleMethod storedBindings wideStore.code 5 longOnStack ∧
      ∃ after, performFrom samplePool sampleMethod storedBindings wideStore.code 5 longOnStack =
        .ok (.store .long 2) after := by
  have hlive : ∀ v ∈ storedBindings, v.index = 2 →
      v.isLiveAt shortStore.next = v.isLiveAt wideStore.next := by decide
  have hstores : ∀ kind index, Instruction.store .long 2 = .store kind index → ∀ v ∈ storedBindings,
      v.index = index → v.isLiveAt shortStore.next = v.isLiveAt wideStore.next := by
    rintro _ _ ⟨⟩
    exact hlive
  obtain ⟨hsame, hperformed⟩ := interchangeable shortStore wideStore rfl nofun hstores longOnStack
  refine ⟨hlive, hsame, ?_⟩
  rw [← hsame, hperformed]
  exact ⟨_, rfl⟩

end Occurrence

end ClassFile
