import ClassFile.Proofs.Code.Frames
import ClassFile.Proofs.Instruction.Decoding
import ClassFile.Proofs.Pool.Encoding
import ClassFile.Proofs.Verification.Bindings
import ClassFile.Proofs.Verification.Counters

/-! Sums that do not overflow while a class file is read and its code verified: the counters of the operand
stack, the indices behind local variables, the offsets of frames, the lengths of switches and the indices of the
constant pool. None of them is checked where it is formed; each is bounded by something that was established
elsewhere: what is on a stack by its limit, an index of a local variable by a load or a store that succeeded
before, the offset of a frame by the length of the code, and an index of the constant pool by its count. -/

namespace ClassFile

/-- Where the ranges of local variables end that an instruction reads and writes. -/
def Instruction.rangeSums (i : Instruction) : List WordSum :=
  (i.localRead?.toList ++ i.localWritten?.toList).map fun range => .add range.index range.category.size

open Noting

namespace Locals

/-- Stores values one behind the other, and notes the index behind each of them. -/
def notedStoreAll (locals : Locals) (index : UInt16) : List Category → Noting CodeFault Unit Locals
  | [] => pure locals
  | c :: rest => do
    let stored ← settled (locals.store index c)
    note (.add index c.size)
    stored.notedStoreAll (index + c.size) rest

/-- The local variables at the start of a method, with notes. -/
def notedAtEntry (maxLocals : UInt16) (isStatic : Bool) (descriptor : MethodDescriptor) :
    Noting CodeFault Unit Locals :=
  let parameters := descriptor.parameters.map FieldType.category
  (unset maxLocals).notedStoreAll 0 (if isStatic then parameters else .reference :: parameters)

/-- Stores the values that a frame describes, and notes the index behind each of them. -/
def notedStoreFrame (locals : Locals) (index : UInt16) :
    List VerificationType → Noting CodeFault Unit Locals
  | [] => pure locals
  | type :: rest => do
    let size := ((frameCategory type).map Category.size).getD 1
    let behind := index.toNat + size.toNat
    if locals.slots.size < behind then
      throw (.invalidLocal (behind - 1) locals.maxLocals)
    let stored ← match frameCategory type with
      | none => pure locals
      | some c => settled (locals.store index c)
    note (.add index size)
    stored.notedStoreFrame (index + size) rest

/-- The local variables that a stack map frame describes, with notes. -/
def notedOfFrame (maxLocals : UInt16) (types : List VerificationType) : Noting CodeFault Unit Locals :=
  (unset maxLocals).notedStoreFrame 0 types

end Locals

/-- Reads the next frame, and notes how far it is from the last one, which is one more than its delta unless
it is the first one, and where it is then. -/
def FrameSequence.notedExtend (pool : Pool) (codeLength : UInt16) (so : FrameSequence) :
    Noting Error Cursor FrameSequence := do
  let form ← quietly (FrameForm.read pool)
  match form.localsAfter so.locals with
  | .error fault => quietly (FileReader.failStructure fault)
  | .ok locals =>
    note (.unsigned 32 (form.delta.toNat + if so.frames.isEmpty then 0 else 1 : Nat))
    note (.unsigned 32 (so.next + form.delta.toNat : Nat))
    let offset ← quietly (frameOffset codeLength (so.next + form.delta.toNat))
    return ⟨⟨offset, locals, form.stackAfter⟩ :: so.frames, locals, offset.toNat + 1⟩

/-- Reads frames that are written as changes, with notes. -/
def notedReadFrames (pool : Pool) (initial : List VerificationType) (codeLength : UInt16) :
    Noting Error Cursor (List StackMapFrame) := do
  let count ← quietly Reader.u16
  let all ← iterate (FrameSequence.notedExtend pool codeLength) ⟨[], initial, 0⟩ count.toNat
  return all.frames.reverse

namespace Decoder

/-- Checks a length, and notes where it ends. -/
def notedRequireLength (site : Site) (length : Nat) : Noting CodeFault Cursor Unit := do
  note (.unsigned 64 (site.pc.toNat + length : Nat))
  quietly (requireLength site length)

/-- Notes the sums for what stands before the targets of a switch. -/
def noteHead (site : Site) (fixed : Nat) : Noting CodeFault Cursor Unit := do
  note (.unsigned 64 (3 - (site.pc.toNat % 4 : Nat)))
  note (.unsigned 64 (1 + paddingAt site.pc : Nat))
  note (.unsigned 64 (1 + paddingAt site.pc + fixed : Nat))

/-- Reads the operands of a switch over a range, and notes the sums for its length. -/
def notedTableSwitch (site : Site) : Noting CodeFault Cursor Instruction := do
  let head := 1 + paddingAt site.pc + 12
  noteHead site 12
  notedRequireLength site head
  quietly (padding site (paddingAt site.pc))
  let default ← quietly (longTarget site)
  let low ← quietly Reader.i32
  let high ← quietly Reader.i32
  if high < low then quietly (malformed site (.emptyRange low high))
  note (.signed 64 (high.toInt - low.toInt))
  note (.signed 64 (high.toInt - low.toInt + 1))
  let count := (high.toInt - low.toInt + 1).toNat
  note (.unsigned 64 (4 * count : Nat))
  note (.unsigned 64 (head + 4 * count : Nat))
  notedRequireLength site (head + 4 * count)
  let targets ← quietly (collect count (longTarget site))
  return .tableSwitch default low high targets

/-- Reads the operands of a switch over keys, and notes the sums for its length. -/
def notedLookupSwitch (site : Site) : Noting CodeFault Cursor Instruction := do
  let head := 1 + paddingAt site.pc + 8
  noteHead site 8
  notedRequireLength site head
  quietly (padding site (paddingAt site.pc))
  let default ← quietly (longTarget site)
  let count ← quietly Reader.i32
  if count < 0 then quietly (malformed site (.negativePairs count))
  note (.unsigned 64 (8 * count.toInt.toNat : Nat))
  note (.unsigned 64 (head + 8 * count.toInt.toNat : Nat))
  notedRequireLength site (head + 8 * count.toInt.toNat)
  let pairs ← quietly (switchPairs site [] count.toInt.toNat)
  return .lookupSwitch default pairs

end Decoder

namespace Pool

/-- Reads the entries of a pool, and notes the index behind each of them. -/
def notedReadEntriesFrom (version : Version) (count index : Nat) (pool : Pool) :
    Noting Error Cursor Pool := do
  if index < count then
    let (tag, pool) ← quietly (readEntry version pool (UInt16.ofNat index))
    note (.unsigned 16 (index + if tag.isWide then 2 else 1 : Nat))
    notedReadEntriesFrom version count (index + if tag.isWide then 2 else 1) pool
  else
    return pool
  termination_by count - index
  decreasing_by split <;> omega

/-- Reads a constant pool, with notes. -/
def notedRead (version : Version) : Noting Error Cursor Pool := do
  let count ← quietly Reader.u16
  if count = 0 then quietly (FileReader.fail (.container .emptyPool))
  notedReadEntriesFrom version count.toNat 1 (empty count)

end Pool

section Locals

variable {p : Premises} {start pass : Pass} {maxLocals : UInt16} {locals : Locals}

theorem fits_storeAll (hsize : locals.slots.size = maxLocals.toNat) (index : UInt16) (cs : List Category) :
    Noting.Fits (locals.notedStoreAll index cs) (settled (locals.storeAll index cs)) := by
  induction cs generalizing locals index with
  | nil => exact .quietly (pure locals)
  | cons c rest ih =>
    refine .settled_bind fun stored hstore => .note ?_ (ih ((Locals.size_store hstore).trans hsize) _)
    have hlimit := maxLocals.toNat_lt
    have hfits := (Locals.store_eq hstore).1
    exact WordSum.fits_add (by omega)

theorem fits_storeFrame (hsize : locals.slots.size = maxLocals.toNat) (index : UInt16)
    (types : List VerificationType) :
    Noting.Fits (locals.notedStoreFrame index types) (settled (locals.storeFrame index types)) := by
  induction types generalizing locals index with
  | nil => exact .quietly (pure locals)
  | cons type rest ih =>
    unfold Locals.notedStoreFrame Locals.storeFrame
    dsimp only
    split
    · exact .quietly (throw _ : EStateM CodeFault Unit Locals)
    · rename_i hroom
      have hlimit := maxLocals.toNat_lt
      have hbehind : (WordSum.add index (((Locals.frameCategory type).map Category.size).getD 1)).Fits :=
        WordSum.fits_add (by omega)
      cases hcategory : Locals.frameCategory type with
      | none =>
        rw [hcategory] at hbehind
        exact .note hbehind (ih hsize _)
      | some c =>
        rw [hcategory] at hbehind
        exact .settled_bind fun stored hstore =>
          .note hbehind (ih ((Locals.size_store hstore).trans hsize) _)

theorem Setting.size_popStored {kind : ValueKind} {stack stack' : OperandStack} {item : StackItem}
    (h : Setting.popStored kind stack = .ok item stack') : item.category.size = kind.category.size := by
  have numeric (c : Category) (hpop : OperandStack.popNumeric c stack = .ok item stack') :
      item.category = c := by
    have haccepts := (OperandStack.popIf_ok hpop).1
    cases item with
    | numeric found _ => exact of_decide_eq_true haccepts
    | reference _ _ => cases haccepts
    | returnAddress _ => cases haccepts
  cases kind with
  | int | long | float | double => exact congrArg Category.size (numeric _ h)
  | reference =>
    rcases (Setting.popStored_ok h).2 with hcategory | hcategory
    · rw [hcategory]
    · rw [hcategory]
      rfl

theorem Setting.fits_store {s : Setting} {kind : ValueKind} {index : UInt16} {machine machine' : Machine}
    (h : s.store kind index machine = .ok () machine') :
    index.toNat + kind.category.size.toNat ≤ machine.locals.slots.size := by
  unfold Setting.store at h
  obtain ⟨item, popped, hlift, hrest⟩ := bind_run.mp h
  obtain ⟨stack, hpop, rfl⟩ := MachineOp.onStack_ok.mp hlift
  rw [get_bind_run] at hrest
  obtain ⟨locals, _, hstore, _⟩ := bind_run.mp hrest
  rw [← Setting.size_popStored hpop]
  exact (Locals.store_eq (MachineOp.ofExcept_ok.mp hstore).1).1

/-- What an instruction that was verified reads and writes lies within the local variables. -/
theorem fits_rangeSums (hstart : Pass.start p = .ok start) {places : List ListedPlace}
    (hrun : Pass.run p start places = .ok pass) {s : PassStep} (hs : s ∈ pass.steps) :
    ∀ sum ∈ s.instruction.rangeSums, sum.Fits := by
  obtain ⟨later, earlier, hsteps⟩ := List.append_of_mem hs
  obtain ⟨_, pre, place, next, hpre, _, hadvances⟩ :=
    (Pass.run_reached (.start hstart) hrun).taken ⟨later, hsteps.symm⟩
  have hsize := hadvances.enters.size hpre.coherent
  have hlimit := p.maxLocals.toNat_lt
  have hread {range : SlotRange} (h : s.instruction.localRead? = some range) :
      range.index.toNat + range.category.size.toNat ≤ s.before.locals.slots.size :=
    (Locals.load_ok_iff.mp (hadvances.performed.read range h)).1
  have hwritten {range : SlotRange} (h : s.instruction.localWritten? = some range) :
      range.index.toNat + range.category.size.toNat ≤ s.before.locals.slots.size := by
    cases hi : s.instruction with
    | store kind index =>
      obtain ⟨hsound, hnone⟩ := Pass.start_sound hstart
      obtain ⟨steps, hall, hfinal⟩ := Pass.run_comes hsound hrun
      rw [hnone, List.append_nil] at hfinal
      obtain ⟨n, hn⟩ := List.mem_iff_getElem?.mp (List.mem_reverse.mp (hfinal ▸ hs))
      obtain ⟨_, _, hcomes⟩ := forall₂_getElem? hall hn
      obtain ⟨_, _, hperform⟩ := hcomes.performs (by rw [hi]; exact nofun)
      rw [hi] at h hperform
      cases h
      exact Setting.fits_store hperform
    | increment index delta =>
      apply hread
      rw [hi] at h ⊢
      exact h
    | _ =>
      rw [hi] at h
      cases h
  intro sum hsum
  obtain ⟨range, hrange, rfl⟩ := List.mem_map.mp hsum
  apply WordSum.fits_add
  rcases List.mem_append.mp hrange with hrange | hrange
  · have := hread (Option.mem_toList.mp hrange)
    omega
  · have := hwritten (Option.mem_toList.mp hrange)
    omega

end Locals

section Frames

variable {pool : Pool} {codeLength : UInt16} {so after : FrameSequence} {cursor c : Cursor}

theorem FrameSequence.next_extend (h : so.extend pool codeLength cursor = .ok after c) :
    after.next ≤ codeLength.toNat := by
  unfold extend at h
  obtain ⟨form, _, _, h⟩ := bind_run.mp h
  cases hlocals : form.localsAfter so.locals with
  | error fault =>
    rw [hlocals] at h
    cases h
  | ok locals =>
    rw [hlocals] at h
    obtain ⟨offset, _, hoffset, h⟩ := bind_run.mp h
    obtain ⟨_, hwithin, _⟩ := frameOffset_ok.mp hoffset
    obtain ⟨rfl, _⟩ := pure_run.mp h
    exact UInt16.lt_iff_toNat_lt.mp hwithin

theorem FrameSequence.fits_extend (hnext : so.next ≤ codeLength.toNat) :
    Noting.Fits (so.notedExtend pool codeLength) (so.extend pool codeLength) := by
  refine .quietly_bind fun form _ _ _ => ?_
  have hlimit := codeLength.toNat_lt
  have hdelta := form.delta.toNat_lt
  cases form.localsAfter so.locals with
  | error fault => exact .quietly _
  | ok locals =>
    have hbehind : (if so.frames.isEmpty then 0 else 1) ≤ 1 := by split <;> decide
    refine .note (WordSum.fits_unsigned (by omega)) (.note (WordSum.fits_unsigned (by omega)) ?_)
    exact .quietly_bind fun _ _ _ _ => .quietly (pure _)

theorem fits_readFrames (pool : Pool) (initial : List VerificationType) (codeLength : UInt16) :
    Noting.Fits (notedReadFrames pool initial codeLength) (readFrames pool initial codeLength) := by
  refine .quietly_bind fun count _ _ _ => .bind ?_ fun _ _ _ _ => .quietly (pure _)
  exact .iterate (fun _ => FrameSequence.fits_extend)
    (fun _ _ _ _ _ hrun => FrameSequence.next_extend hrun) (Nat.zero_le codeLength.toNat) _

end Frames

section Switches

open Decoder

variable {site : Site}

theorem fits_requireLength {length : Nat} (h : length ≤ 68719476736) :
    Noting.Fits (notedRequireLength site length) (requireLength site length) := by
  have hpc := site.pc.toNat_lt
  exact .note (WordSum.fits_unsigned (by omega)) (.quietly _)

theorem fits_head {α : Type} {noting : Noting CodeFault Cursor α} {action : Decoder α} {fixed : Nat}
    (hfixed : fixed ≤ 12) (h : Noting.Fits noting action) :
    Noting.Fits (noteHead site fixed >>= fun _ => noting) action := by
  have hpadding : paddingAt site.pc ≤ 3 := Nat.sub_le _ _
  have hplace : site.pc.toNat % 4 ≤ 3 := Nat.le_of_lt_succ (Nat.mod_lt _ (by decide))
  have hdifference : (WordSum.unsigned 64 (3 - (site.pc.toNat % 4 : Nat))).Fits := by
    change (0 : Int) ≤ _ ∧ _ < (18446744073709551616 : Int)
    omega
  have hpadded : (WordSum.unsigned 64 (1 + paddingAt site.pc : Nat)).Fits :=
    WordSum.fits_unsigned (by omega)
  have hhead : (WordSum.unsigned 64 (1 + paddingAt site.pc + fixed : Nat)).Fits :=
    WordSum.fits_unsigned (by omega)
  exact .note hdifference (.note hpadded (.note hhead h))

theorem fits_tableSwitch (site : Site) : Noting.Fits (notedTableSwitch site) (tableSwitch site) := by
  have hpadding : paddingAt site.pc ≤ 3 := Nat.sub_le _ _
  refine fits_head (by decide) (.bind (fits_requireLength (by omega)) fun _ _ _ _ => ?_)
  refine .quietly_bind fun _ _ _ _ => .quietly_bind fun default _ _ _ => ?_
  refine .quietly_bind fun low _ _ _ => .quietly_bind fun high _ _ _ => ?_
  by_cases hempty : high < low
  · rw [if_pos hempty, if_pos hempty]
    exact .quietly_bind nofun
  rw [if_neg hempty, if_neg hempty]
  -- the whole range has one number more than four bytes can hold
  have hle := Int32.le_iff_toInt_le.mp (Int32.not_lt.mp hempty)
  have hlow := low.le_toInt
  have hhigh := high.toInt_lt
  have signed {n : Int} (hzero : 0 ≤ n) (h : n ≤ 4294967296) : (WordSum.signed 64 n).Fits := by
    change -9223372036854775808 ≤ n ∧ n < 9223372036854775808
    omega
  have hcount : (high.toInt - low.toInt + 1).toNat ≤ 4294967296 := by omega
  refine .note (signed (by omega) (by omega)) (.note (signed (by omega) (by omega)) ?_)
  refine .note (WordSum.fits_unsigned (by omega)) (.note (WordSum.fits_unsigned (by omega)) ?_)
  exact .bind (fits_requireLength (by omega)) fun _ _ _ _ => .quietly_bind fun _ _ _ _ => .quietly (pure _)

theorem fits_lookupSwitch (site : Site) : Noting.Fits (notedLookupSwitch site) (lookupSwitch site) := by
  have hpadding : paddingAt site.pc ≤ 3 := Nat.sub_le _ _
  refine fits_head (by decide) (.bind (fits_requireLength (by omega)) fun _ _ _ _ => ?_)
  refine .quietly_bind fun _ _ _ _ => .quietly_bind fun default _ _ _ => ?_
  refine .quietly_bind fun count _ _ _ => ?_
  by_cases hnegative : count < 0
  · rw [if_pos hnegative, if_pos hnegative]
    exact .quietly_bind nofun
  rw [if_neg hnegative, if_neg hnegative]
  have hlimit := count.toInt_lt
  have hcount : count.toInt.toNat ≤ 2147483648 := by omega
  refine .note (WordSum.fits_unsigned (by omega)) (.note (WordSum.fits_unsigned (by omega)) ?_)
  exact .bind (fits_requireLength (by omega)) fun _ _ _ _ => .quietly_bind fun _ _ _ _ => .quietly (pure _)

end Switches

section Pools

open Pool

variable {version : Version} {pool after : Pool} {count : UInt16} {c c' : Cursor}

/-- Behind an entry that was read the pool is as large as before, and the next index lies within its count. -/
theorem Pool.readEntry_within (hsize : pool.slots.size = count.toNat) {index : UInt16} {tag : Tag}
    (h : readEntry version pool index c = .ok (tag, after) c') :
    after.slots.size = count.toNat ∧ index.toNat + (if tag.isWide then 2 else 1) ≤ count.toNat := by
  obtain ⟨entry, rfl, _, hinsert, _⟩ := readEntry_ok.mp h
  rw [insert_ok] at hinsert
  rcases fill_run hsize index entry with ⟨hroom, hrun⟩ | ⟨_, _, hrun⟩
  · rw [hrun] at hinsert
    cases hinsert
    constructor
    · rw [put]
      dsimp only
      split <;> simp only [Array.size_setIfInBounds, hsize]
    · split
      · rename_i hwide
        exact (hroom.next (Entry.wide_iff.mpr hwide)).1
      · exact UInt16.lt_iff_toNat_lt.mp hroom.inside
  · rw [hrun] at hinsert
    cases hinsert

theorem fits_readEntriesFrom (hsize : pool.slots.size = count.toNat) (index : Nat) :
    Noting.Fits (notedReadEntriesFrom version count.toNat index pool)
      (readEntriesFrom version count.toNat index pool) := by
  have hlimit := count.toNat_lt
  fun_induction readEntriesFrom version count.toNat index pool with
  | case1 index pool hlt ih =>
    unfold notedReadEntriesFrom
    rw [if_pos hlt]
    refine .quietly_bind fun (tag, after) c c' hread => ?_
    have hindex : (UInt16.ofNat index).toNat = index := UInt16.toNat_ofNat_of_lt' (Nat.lt_trans hlt hlimit)
    obtain ⟨hafter, hwithin⟩ := readEntry_within hsize hread
    rw [hindex] at hwithin
    exact .note (WordSum.fits_unsigned (Nat.lt_of_le_of_lt hwithin hlimit)) (ih tag after hafter)
  | case2 index pool hlt =>
    unfold notedReadEntriesFrom
    rw [if_neg hlt]
    exact .quietly (pure pool)

theorem fits_readPool (version : Version) : Noting.Fits (notedRead version) (read version) := by
  refine .quietly_bind fun count _ _ _ => ?_
  by_cases hzero : count = 0
  · rw [if_pos hzero, if_pos hzero]
    exact .quietly_bind nofun
  · rw [if_neg hzero, if_neg hzero]
    exact fits_readEntriesFrom Array.size_replicate 1

end Pools

/-- The words that hold the counters of the stack, indices of local variables, offsets of frames, lengths of
switches and indices of the constant pool hold all the sums that are formed there, so that it does not matter
for these whether they wrap. A word gives the number that a sum is if and only if the sum fits into it, and the
counters of the stack are such words. Wherever the pass has come to, whatever is performed there forms only sums
of the depth and the counters that fit, and so does taking the return address behind a call of a subroutine;
what the instructions of a loop read and write ends within a word as well. Where the indices behind the
parameters of a method and behind the local variables of a frame are noted, the offsets of frames that are
written as changes, the lengths of switches, and the indices behind the entries of a constant pool, nothing else
changes, and they fit. -/
theorem WordSum.all_fit :
    (∀ sum : WordSum, 0 < sum.bits → (sum.wrapped = sum.exact ↔ sum.Fits)) ∧
      (∀ a b : UInt16, ((a + b).toNat : Int) = (WordSum.add a b).wrapped ∧
        ((a - b).toNat : Int) = (WordSum.sub a b).wrapped) ∧
      (∀ p places start pass, Pass.start p = .ok start → Pass.run p start places = .ok pass →
        (∀ pc before, pass.enter p pc = .ok before → ∀ (s : Setting) (op : Operation),
          (∃ sums, Forms Machine.Counts (op.perform s) before sums ∧ ∀ sum ∈ sums, sum.Fits) ∧
            ∀ i after, op.perform s before = .ok i after → i.isSubroutineCall = true →
              ∃ sums, Forms OperandStack.Counts OperandStack.popReturnAddress after.stack sums ∧
                ∀ sum ∈ sums, sum.Fits) ∧
          ∀ target, ∀ i ∈ Pass.bodyFrom pass.steps target, ∀ sum ∈ i.rangeSums, sum.Fits) ∧
      (∀ maxLocals isStatic descriptor, Noting.Fits (Locals.notedAtEntry maxLocals isStatic descriptor)
        (settled (Locals.atEntry maxLocals isStatic descriptor))) ∧
      (∀ maxLocals types, Noting.Fits (Locals.notedOfFrame maxLocals types)
        (settled (Locals.ofFrame maxLocals types))) ∧
      (∀ pool initial codeLength, Noting.Fits (notedReadFrames pool initial codeLength)
        (readFrames pool initial codeLength)) ∧
      (∀ site, Noting.Fits (Decoder.notedTableSwitch site) (Decoder.tableSwitch site)) ∧
      (∀ site, Noting.Fits (Decoder.notedLookupSwitch site) (Decoder.lookupSwitch site)) ∧
      ∀ version, Noting.Fits (Pool.notedRead version) (Pool.read version) := by
  refine ⟨WordSum.wrapped_eq_iff, fun a b => ⟨toNat_add a b, toNat_sub a b⟩, ?_,
    fun maxLocals _ _ => fits_storeAll Locals.size_unset _ _,
    fun maxLocals _ => fits_storeFrame Locals.size_unset _ _, fits_readFrames, fits_tableSwitch,
    fits_lookupSwitch, fits_readPool⟩
  intro p places start pass hstart hrun
  refine ⟨fun pc before hbefore s op => Pass.sums_perform hstart hrun hbefore s op, fun target i hi => ?_⟩
  obtain ⟨s, hs, rfl⟩ := List.mem_map.mp hi
  exact fits_rangeSums hstart hrun ((List.takeWhile_prefix _).subset (List.mem_reverse.mp hs))

/-- Code that may use as much of a stack as there can be, and a single local variable. -/
def fullStack : Premises where
  method := earlyMethod
  maxStack := 65535
  maxLocals := 1
  handlers := []
  lines := .ofLines []
  localVariables := []
  frames := []

/-- A number is put on the stack and stored from there. -/
def storingPlaces : List ListedPlace :=
  [⟨0, .ok ⟨.instruction (.constant (.int 0)), 1⟩⟩, ⟨1, .ok ⟨.instruction (.store .int 0), 2⟩⟩]

/-- A subroutine is called behind the store. -/
def callBehind : MachineOp Instruction :=
  (Operation.instruction (.jsr 5)).perform ⟨earlyMethod, [], 2, 5⟩

/-- Nothing overflows in the call or in what the store wrote, and the number of targets of a switch over all
numbers is more than four bytes hold, but not more than eight do. -/
theorem storingPlaces_fit :
    ∃ start pass before after, Pass.start fullStack = .ok start ∧
      Pass.run fullStack start storingPlaces = .ok pass ∧ pass.enter fullStack 2 = .ok before ∧
      callBehind before = .ok (.jsr 5) after ∧
      (∃ sums, Forms Machine.Counts callBehind before sums ∧ ∀ sum ∈ sums, sum.Fits) ∧
      (∃ sums, Forms OperandStack.Counts OperandStack.popReturnAddress after.stack sums ∧
        ∀ sum ∈ sums, sum.Fits) ∧
      (∀ sum ∈ (Instruction.store .int 0).rangeSums, sum.Fits) ∧
      (WordSum.signed 32 4294967296).wrapped ≠ 4294967296 ∧
      (WordSum.signed 64 4294967296).wrapped = 4294967296 := by
  obtain ⟨hwrapped, _, hpasses, _⟩ := WordSum.all_fit
  obtain ⟨start, pass, before, after, hstart, hrun, hbefore, hcall, hmem⟩ : ∃ start pass before after,
      Pass.start fullStack = .ok start ∧ Pass.run fullStack start storingPlaces = .ok pass ∧
        pass.enter fullStack 2 = .ok before ∧ callBehind before = .ok (.jsr 5) after ∧
        Instruction.store .int 0 ∈ Pass.bodyFrom pass.steps 0 :=
    ⟨_, _, _, _, rfl, rfl, rfl, rfl, by decide⟩
  obtain ⟨hsums, hloop⟩ := hpasses fullStack storingPlaces start pass hstart hrun
  obtain ⟨hperforming, hreturning⟩ := hsums 2 before hbefore ⟨earlyMethod, [], 2, 5⟩ (.instruction (.jsr 5))
  have hnarrow : ¬ (WordSum.signed 32 4294967296).Fits := by decide
  have hwide : (WordSum.signed 64 4294967296).Fits := by decide
  exact ⟨start, pass, before, after, hstart, hrun, hbefore, hcall, hperforming,
    hreturning (.jsr 5) after hcall rfl, hloop 0 _ hmem,
    fun hsame => hnarrow ((hwrapped _ (by decide)).mp hsame), (hwrapped _ (by decide)).mpr hwide⟩

end ClassFile
