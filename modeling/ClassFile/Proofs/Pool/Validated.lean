import ClassFile.Pool.Validity
import ClassFile.Proofs.Success

/-! Resolving the entries of a pool that was validated. Validation resolves every entry as what it is, so that
nothing that an entry refers to can be wrong any more. All that can go wrong is told by the index that is
resolved: there is no entry, or one of another kind. -/

namespace ClassFile.Pool

/-- The values that entries which meet an expectation stand for. -/
def Expected.Value : Expected → Type
  | .utf8 | .string => Text
  | .classInfo => ClassName
  | .nameAndType => NameAndType
  | .fieldRef => FieldRef
  | .methodRef | .anyMethodRef | .interfaceMethodRef => MethodRef
  | .methodHandle => MethodHandle
  | .methodType => MethodDescriptor
  | .dynamic => DynamicRef
  | .invokeDynamic => CallSiteRef
  | .loadable => Loadable
  | .constant => ConstantValue

/-- The expectation that only entries of a kind meet, if there is one. -/
def Tag.own? : Tag → Option Expected
  | .utf8 => some .utf8
  | .classInfo => some .classInfo
  | .string => some .string
  | .nameAndType => some .nameAndType
  | .fieldRef => some .fieldRef
  | .methodRef => some .methodRef
  | .interfaceMethodRef => some .interfaceMethodRef
  | .methodHandle => some .methodHandle
  | .methodType => some .methodType
  | .dynamic => some .dynamic
  | .invokeDynamic => some .invokeDynamic
  | .integer | .float | .long | .double | .moduleInfo | .packageInfo => none

/-- The value that an entry which meets an expectation stands for. -/
def resolve (pool : Pool) : (expected : Expected) → UInt16 → Except Located expected.Value
  | .utf8, index => pool.utf8At index
  | .classInfo, index => pool.classAt index
  | .string, index => pool.stringAt index
  | .nameAndType, index => pool.nameAndTypeAt index
  | .fieldRef, index => pool.fieldAt index
  | .methodRef, index => pool.classMethodAt index
  | .anyMethodRef, index => pool.methodAt index
  | .interfaceMethodRef, index => pool.interfaceMethodAt index
  | .methodHandle, index => pool.methodHandleAt index
  | .methodType, index => pool.methodTypeAt index
  | .dynamic, index => pool.dynamicAt index
  | .invokeDynamic, index => pool.callSiteAt index
  | .loadable, index => pool.loadableAt index
  | .constant, index => pool.constantAt index

/-- Why there is no entry at an index that meets an expectation. -/
inductive Misses (pool : Pool) (expected : Expected) (index : UInt16) : Fault → Prop
  | zero (none : index = 0) : Misses pool expected index .zeroIndex
  | beyond (none : pool.slots.size ≤ index.toNat) : Misses pool expected index (.outOfRange pool.count)
  | phantom (taken : pool.slots[index.toNat]? = some .phantom) : Misses pool expected index .phantomSlot
  | other {entry : Entry} (found : pool.entry index = .ok entry)
      (refused : expected.accepts entry.tag = false) :
      Misses pool expected index (.wrongTag expected entry.tag)

variable {pool : Pool} {version : Version} {index : UInt16} {expected : Expected} {entry : Entry}
  {located : Located}

section Entry

theorem nameAt_ok {α : Type} {result : Except NameFault α} {name : α} :
    nameAt index result = .ok name ↔ result = .ok name := mapError_ok

theorem descriptorAt_ok {α : Type} {result : Except DescriptorFault α} {type : α} :
    descriptorAt index result = .ok type ↔ result = .ok type := mapError_ok

theorem entry_ok :
    pool.entry index = .ok entry ↔ index ≠ 0 ∧ pool.slots[index.toNat]? = some (.entry entry) := by
  unfold Pool.entry
  by_cases hzero : index = 0
  · simp [hzero]
  · rw [if_neg hzero]
    split <;> simp_all

theorem entry_error (h : pool.entry index = .error located) :
    located.index = index ∧
      (pool.slots[index.toNat]? = some .vacant ∧ index ≠ 0 ∨ Misses pool expected index located.fault) := by
  unfold Pool.entry at h
  split at h
  · rename_i hzero
    cases h
    exact ⟨rfl, .inr (.zero hzero)⟩
  · rename_i hzero
    split at h
    · rename_i hnone
      cases h
      exact ⟨rfl, .inr (.beyond (Array.getElem?_eq_none_iff.mp hnone))⟩
    · rename_i hvacant
      exact ⟨by cases h; rfl, .inl ⟨hvacant, hzero⟩⟩
    · rename_i hphantom
      cases h
      exact ⟨rfl, .inr (.phantom hphantom)⟩
    · cases h

/-- Resolving an index looks at the entry there first, and refuses one that is of no kind expected. -/
theorem resolve_dispatches (pool : Pool) (expected : Expected) (index : UInt16) :
    ∃ ofEntry : Entry → Except Located expected.Value,
      pool.resolve expected index = (pool.entry index >>= ofEntry) ∧
        ∀ entry, expected.accepts entry.tag = false → ofEntry entry = misfit index expected entry := by
  -- the last alternative of each resolver is the misfit, and the others are for entries that it accepts
  cases expected <;> refine ⟨_, rfl, fun entry h => ?_⟩ <;> cases entry <;> first | rfl | cases h

theorem resolve_missing (h : pool.entry index = .error located) (expected : Expected) :
    pool.resolve expected index = .error located := by
  obtain ⟨ofEntry, hresolve, _⟩ := pool.resolve_dispatches expected index
  rw [hresolve, h]
  rfl

theorem resolve_refused (h : pool.entry index = .ok entry) (hrefused : expected.accepts entry.tag = false) :
    pool.resolve expected index = misfit index expected entry := by
  obtain ⟨ofEntry, hresolve, hmisfit⟩ := pool.resolve_dispatches expected index
  rw [hresolve, h]
  exact hmisfit entry hrefused

end Entry

section Check

variable (h : pool.entry index = .ok entry) (hcheck : pool.checkEntry version index entry = .ok ())

include h hcheck

/-- An entry that passes its check stands for a value as what it is. -/
theorem resolve_own (hown : entry.tag.own? = some expected) :
    ∃ value, pool.resolve expected index = .ok value := by
  cases entry with
  | utf8 text =>
      cases hown
      exact ⟨text, by rw [resolve, utf8At, h]; rfl⟩
  | string text =>
      cases hown
      rw [resolve, stringAt, h]
      exact discard_ok hcheck
  | methodRef owner member =>
      cases hown
      have hmethod := discard_ok hcheck
      -- the check allows methods of interfaces, but the entry is for one of a class
      rw [methodAt, h] at hmethod
      rw [resolve, classMethodAt, h]
      exact hmethod
  | nameAndType | methodHandle =>
      cases hown
      obtain ⟨value, hvalue, _⟩ := bind_ok.mp hcheck
      exact ⟨value, hvalue⟩
  | integer | float | long | double | moduleInfo | packageInfo => cases hown
  | _ =>
      cases hown
      exact discard_ok hcheck

theorem anyMethod_checked (haccepts : Expected.anyMethodRef.accepts entry.tag = true) :
    ∃ method, pool.methodAt index = .ok method := by
  cases entry with
  | methodRef owner member => exact discard_ok hcheck
  | interfaceMethodRef owner member =>
      have hmethod := discard_ok hcheck
      rw [interfaceMethodAt, h] at hmethod
      rw [methodAt, h]
      exact hmethod
  | _ => cases haccepts

theorem loadable_checked (haccepts : Expected.loadable.accepts entry.tag = true) :
    ∃ value, pool.loadableAt index = .ok value := by
  rw [loadableAt, h]
  cases entry with
  | integer | float | long | double => exact ⟨_, rfl⟩
  | string | classInfo | methodHandle | methodType | dynamic => exact map_ok (resolve_own h hcheck rfl)
  | _ => cases haccepts

theorem constant_checked (haccepts : Expected.constant.accepts entry.tag = true) :
    ∃ value, pool.constantAt index = .ok value := by
  rw [constantAt, h]
  cases entry with
  | integer | float | long | double => exact ⟨_, rfl⟩
  | string => exact map_ok (resolve_own h hcheck rfl)
  | _ => cases haccepts

/-- An entry that passes its check stands for a value, whichever of the expectations that it meets it is
resolved for. -/
theorem resolve_checked (haccepts : expected.accepts entry.tag = true) :
    ∃ value, pool.resolve expected index = .ok value := by
  cases expected with
  | anyMethodRef => exact anyMethod_checked h hcheck haccepts
  | loadable => exact loadable_checked h hcheck haccepts
  | constant => exact constant_checked h hcheck haccepts
  | _ =>
      refine resolve_own h hcheck ?_
      cases entry <;> first | rfl | cases haccepts

end Check

section Validate

theorem mem_indexed {slot : Slot} (hindex : index ≠ 0) (hslot : pool.slots[index.toNat]? = some slot) :
    (index, slot) ∈ pool.indexed.tail := by
  have hpositive : index.toNat ≠ 0 := fun hzero => hindex (UInt16.toNat_inj.mp hzero)
  obtain ⟨n, hn⟩ := Nat.exists_eq_succ_of_ne_zero hpositive
  have hget : pool.indexed.tail[n]? = some (index, slot) := by
    rw [List.getElem?_tail, indexed, List.getElem?_mapIdx, Array.getElem?_toList, ← Nat.succ_eq_add_one, ← hn,
      hslot, Option.map_some, UInt16.ofNat_toNat]
  exact List.mem_of_getElem? hget

/-- In a pool that was validated, what stands at any index but zero passes its check. -/
theorem checkSlot_of_validate (h : pool.validate version = .ok ()) {slot : Slot} (hindex : index ≠ 0)
    (hslot : pool.slots[index.toNat]? = some slot) : pool.checkSlot version index slot = .ok () :=
  forM_eq_ok.mp h (index, slot) (mem_indexed hindex hslot)

theorem checkEntry_of_validate (h : pool.validate version = .ok ()) (hentry : pool.entry index = .ok entry) :
    pool.checkEntry version index entry = .ok () := by
  obtain ⟨hindex, hslot⟩ := entry_ok.mp hentry
  have hcheck := checkSlot_of_validate h hindex hslot
  unfold checkSlot at hcheck
  dsimp only at hcheck
  split at hcheck
  · cases hcheck
  · cases hresult : pool.checkEntry version index entry with
    | error located =>
        rw [hresult] at hcheck
        cases hcheck
    | ok _ => rfl

end Validate

/-- In a pool that was validated, every entry that meets an expectation stands for a value, and resolving an
index fails only with what is wrong at the index itself. -/
theorem validate_resolves (h : pool.validate version = .ok ()) (expected : Expected) (index : UInt16) :
    (∀ entry, pool.entry index = .ok entry → expected.accepts entry.tag = true →
      ∃ value, pool.resolve expected index = .ok value) ∧
    ∀ located, pool.resolve expected index = .error located →
      located.index = index ∧ Misses pool expected index located.fault := by
  have haccepted : ∀ entry, pool.entry index = .ok entry → expected.accepts entry.tag = true →
      ∃ value, pool.resolve expected index = .ok value :=
    fun entry hentry => resolve_checked hentry (checkEntry_of_validate h hentry)
  refine ⟨haccepted, fun located hlocated => ?_⟩
  cases hentry : pool.entry index with
  | error missing =>
      obtain rfl : missing = located := by
        rw [resolve_missing hentry] at hlocated
        exact Except.error.inj hlocated
      obtain ⟨hindex, ⟨hvacant, hnonzero⟩ | hmisses⟩ := entry_error hentry
      · cases checkSlot_of_validate h hnonzero hvacant
      · exact ⟨hindex, hmisses⟩
  | ok entry =>
      cases haccepts : expected.accepts entry.tag with
      | true =>
          obtain ⟨value, hvalue⟩ := haccepted entry hentry haccepts
          rw [hvalue] at hlocated
          cases hlocated
      | false =>
          rw [resolve_refused hentry haccepts] at hlocated
          cases hlocated
          exact ⟨rfl, .other hentry haccepts⟩

/-- A pool with a method handle, the entries that it refers to, and a wide entry. -/
def handlePool : Pool :=
  ⟨#[.vacant, .entry (.methodHandle 6 2), .entry (.interfaceMethodRef 3 4), .entry (.classInfo 5),
    .entry (.nameAndType 6 7), .entry (.utf8 (.ofString "a/B")), .entry (.utf8 (.ofString "run")),
    .entry (.utf8 (.ofString "()V")), .entry (.long 1), .phantom]⟩

/-- The handle can be loaded as a constant, but not be taken for a reference to a method. -/
theorem handlePool_resolves : handlePool.validate ⟨52, 0⟩ = .ok () ∧
    (∃ value, handlePool.resolve .loadable 1 = .ok value) ∧
    Misses handlePool .anyMethodRef 1 (.wrongTag .anyMethodRef .methodHandle) := by
  have hvalid : handlePool.validate ⟨52, 0⟩ = .ok () := by
    have hresult : (handlePool.validate ⟨52, 0⟩).toBool = true := by decide +kernel
    cases hrun : handlePool.validate ⟨52, 0⟩ with
    | error error =>
        rw [hrun] at hresult
        cases hresult
    | ok _ => rfl
  have hentry : handlePool.entry 1 = .ok (.methodHandle 6 2) := rfl
  exact ⟨hvalid, (validate_resolves hvalid .loadable 1).1 _ hentry rfl,
    ((validate_resolves hvalid .anyMethodRef 1).2 ⟨1, .wrongTag .anyMethodRef .methodHandle⟩ rfl).2⟩

end ClassFile.Pool
