import ClassFile.Proofs.Instruction.Lawful
import ClassFile.Proofs.Verification.Addresses
import ClassFile.Proofs.Verification.Unreached

/-! Code agrees with what is said about its local variables. Loads, increments and stores are each checked
against the variables that are live, at the offset where what they read or write has to be there. What a
store takes from the stack has the kind that the instruction names, unless it is a return address, and from
version 51 on there are none. -/

namespace ClassFile

/-- Values in a slot at an offset have a category as far as variables that are live there have types. -/
def AgreesAt (table : List LocalVariable) (pc index : UInt16) (c : Category) : Prop :=
  ∀ v ∈ table, v.index = index → v.isLiveAt pc = true → ∀ type, v.type = some type → type.category = c

/-- Code respects its local variables. A variable is live at the offset of an instruction that reads it, and
where the next instruction starts for one that writes it. -/
structure Code.RespectsVariables (version : Version) (code : Code) : Prop where
  loads : ∀ i ∈ code.instructions, ∀ kind index, i.instruction = .load kind index →
    AgreesAt code.localVariables i.pc index kind.category
  increments : ∀ i ∈ code.instructions, ∀ index delta, i.instruction = .increment index delta →
    AgreesAt code.localVariables i.pc index .int
  stores : ∀ i next, [i, next] <:+: code.instructions → ∀ kind index, i.instruction = .store kind index →
    (kind = .reference → 51 ≤ version.major) → AgreesAt code.localVariables next.pc index kind.category
  fits : ∀ v ∈ code.localVariables, v.index < code.maxLocals ∧ v.stop ≤ code.codeLength.toNat
  wideFits : ∀ v ∈ code.localVariables, ∀ type, v.type = some type →
    type.category = .long ∨ type.category = .double →
    v.index.toNat + 1 < code.maxLocals.toNat ∧ v.stop ≤ code.codeLength.toNat

theorem checkBinding_ok {table : List LocalVariable} {pc index : UInt16} {c : Category} :
    checkBinding table pc index c = .ok () ↔ AgreesAt table pc index c := by
  unfold checkBinding AgreesAt
  dsimp only
  constructor
  · intro h v hv hindex hlive type htype
    split at h
    · rename_i hnone
      have hagrees := List.findSome?_eq_none_iff.mp hnone v hv
      rw [if_pos ⟨hindex, hlive⟩, htype] at hagrees
      by_contra hcategory
      simp [hcategory] at hagrees
    · cases h
  · intro h
    rw [List.findSome?_eq_none_iff.mpr]
    intro v hv
    by_cases hhere : v.index = index ∧ v.isLiveAt pc = true
    · rw [if_pos hhere]
      cases htype : v.type with
      | none => rfl
      | some type => exact if_pos (h v hv hhere.1 hhere.2 type htype)
    · exact if_neg hhere

namespace Setting

variable {s : Setting} {kind : ValueKind} {index : UInt16} {machine after : Machine}

theorem load_agrees (h : s.load kind index machine = .ok () after) :
    AgreesAt s.localVariables s.pc index kind.category := by
  rw [load, get_bind_run] at h
  obtain ⟨_, between, _, h⟩ := bind_run.mp h
  obtain ⟨_, _, hcheck, _⟩ := bind_run.mp h
  exact checkBinding_ok.mp (MachineOp.ofExcept_ok.mp hcheck).1

theorem increment_agrees (h : s.increment index machine = .ok () after) :
    AgreesAt s.localVariables s.pc index .int := by
  rw [increment, get_bind_run] at h
  obtain ⟨_, between, _, h⟩ := bind_run.mp h
  obtain ⟨_, _, hcheck, _⟩ := bind_run.mp h
  exact checkBinding_ok.mp (MachineOp.ofExcept_ok.mp hcheck).1

/-- Only the store of a reference takes a return address. -/
theorem popStored_category {stack stack' : OperandStack} {item : StackItem}
    (h : popStored kind stack = .ok item stack') (haddress : item.category = .returnAddress) :
    kind = .reference := by
  have numeric (c : Category) (hpop : OperandStack.popNumeric c stack = .ok item stack') : False := by
    obtain ⟨haccepts, -⟩ := OperandStack.popIf_ok hpop
    cases item with
    | numeric found _ => exact found.category_ne haddress
    | reference _ _ => cases haccepts
    | returnAddress _ => cases haccepts
  cases kind with
  | reference => rfl
  | int => exact (numeric _ h).elim
  | long => exact (numeric _ h).elim
  | float => exact (numeric _ h).elim
  | double => exact (numeric _ h).elim

/-- What is stored agrees with the variables that are live behind the instruction, unless a reference is to be
stored and the stack holds a return address. -/
theorem store_agrees (h : s.store kind index machine = .ok () after)
    (haddress : kind = .reference → .returnAddress ∉ machine.stack.shape) :
    AgreesAt s.localVariables s.next index kind.category := by
  unfold store at h
  obtain ⟨item, popped, hlift, h⟩ := bind_run.mp h
  obtain ⟨stack, hpop, rfl⟩ := MachineOp.onStack_ok.mp hlift
  rw [get_bind_run] at h
  obtain ⟨locals, _, _, h⟩ := bind_run.mp h
  obtain ⟨_, _, _, hcheck⟩ := bind_run.mp h
  obtain ⟨hitems, hcategory⟩ := popStored_ok hpop
  have hvalue : item.category ≠ .returnAddress := by
    intro hreturn
    apply haddress (popStored_category hpop hreturn)
    rw [OperandStack.shape, shapeOf, hitems, List.map_cons, List.reverse_cons, hreturn]
    exact List.mem_append_right _ (List.mem_singleton_self _)
  rw [if_pos hvalue] at hcheck
  rw [← hcategory.resolve_right hvalue]
  exact checkBinding_ok.mp (MachineOp.ofExcept_ok.mp hcheck).1

end Setting

section Subroutines

variable {pool : Pool} {version : Version}

/-- From version 51 on no opcode calls a subroutine. -/
theorem Encodes.legacy_of_call {pc : Nat} {i : Instruction} {range : List UInt8}
    (h : Encodes pool version pc i range) (hsupported : ∀ opcode ∈ opcodesIn range, version.Supports opcode)
    (hcall : i.isSubroutineCall = true) : version.major < 51 := by
  cases i with
  | jsr target =>
      generalize hi : Instruction.jsr target = i at h
      cases h with
      | jump jump _ _ =>
          cases jump with
          | jsr => exact (hsupported _ List.mem_cons_self).legacy (.inl rfl)
          | _ => cases hi
      | longJump hopcode target =>
          rename_i jump opcode
          cases jump with
          | jsr =>
              cases hopcode
              exact (hsupported _ List.mem_cons_self).legacy (.inr (.inr rfl))
          | _ => cases hi
      | field use _ => cases use <;> cases hi
      | sole hopcode | localVariable hopcode | wideLocalVariable hopcode | classOperand hopcode _ =>
          rw [← hi] at hopcode
          cases hopcode
      | _ => cases hi
  | _ => cases hcall

theorem Tiles.legacy_of_call {pc : Nat} {instructions : List VerifiedInstruction} {bytes : List UInt8}
    (h : Tiles pool version pc instructions bytes) :
    ∀ v ∈ instructions, v.instruction.isSubroutineCall = true → version.major < 51 := by
  induction h with
  | nil pc => exact fun v hv => absurd hv List.not_mem_nil
  | cons _ hencodes hsupported _ ih =>
      exact List.forall_mem_cons.mpr ⟨hencodes.legacy_of_call hsupported, ih⟩

end Subroutines

/-- Neighbours in one of two related lists have neighbours in the other one as partners. -/
theorem exists_neighbours {α β : Type} {R : α → β → Prop} {items : List α} {others : List β}
    (h : List.Forall₂ R items others) {b b' : β} (hnext : [b, b'] <:+: others) :
    ∃ a a', [a, a'] <:+: items ∧ R a b ∧ R a' b' := by
  obtain ⟨front, back, rfl⟩ := hnext
  rw [List.append_assoc] at h
  obtain ⟨before, rest, rfl, -, hrest⟩ := exists_split_of_forall₂ h
  obtain ⟨pair, behind, rfl, hpair, -⟩ := exists_split_of_forall₂ hrest
  obtain ⟨a, more, ha, hmore, rfl⟩ := List.forall₂_cons_right_iff.mp hpair
  obtain ⟨a', none, ha', hnone, rfl⟩ := List.forall₂_cons_right_iff.mp hmore
  cases hnone
  exact ⟨a, a', ⟨before, behind, (List.append_assoc ..)⟩, ha, ha'⟩

/-- An instruction that is no rearrangement of the stack is performed as it was decoded. -/
theorem PassStep.Comes.performs {p : Premises} {place : ListedPlace} {s : PassStep} (h : s.Comes p place)
    (hform : ∀ form, s.instruction ≠ .shuffle form) :
    ∃ decoded, place.decoded = .ok decoded ∧
      s.instruction.perform ⟨p.method, p.localVariables, s.pc, decoded.next⟩ s.before = .ok () s.after := by
  obtain ⟨decoded, hdecoded, hperform⟩ := h.performed
  refine ⟨decoded, hdecoded, ?_⟩
  have hpc : s.pc = place.pc := h.pc
  rw [hpc]
  cases hoperation : decoded.operation with
  | instruction i =>
      rw [hoperation] at hperform
      obtain ⟨_, _, hrun, hpure⟩ := bind_run.mp hperform
      cases hpure
      exact hrun
  | shuffle op =>
      rw [hoperation] at hperform
      obtain ⟨form, hshuffle, -⟩ := Operation.becomes_of_perform hperform
      exact absurd hshuffle (hform form)

namespace Accepted

variable {pool : Pool} {method : MethodContext} {source rest : Cursor} {code : Code} {raw : RawCode}
  {steps : List PassStep} {s s' : PassStep}

theorem localVariables (h : Accepted pool method source rest code raw steps) :
    code.localVariables = raw.localVariables := by
  obtain ⟨keepBytes, rfl⟩ := h.result
  rfl

/-- How an instruction was performed. -/
theorem performs (h : Accepted pool method source rest code raw steps) {i : VerifiedInstruction}
    (hi : i ∈ code.instructions) (hform : ∀ form, i.instruction ≠ .shuffle form) :
    ∃ next before after,
      i.instruction.perform ⟨method, code.localVariables, i.pc, next⟩ before = .ok () after := by
  rw [h.instructions, List.mem_map] at hi
  obtain ⟨s, hs, rfl⟩ := hi
  obtain ⟨n, hn⟩ := List.mem_iff_getElem?.mp hs
  obtain ⟨place, _, hcomes⟩ := forall₂_getElem? (Premises.verify_comes h.verified) hn
  obtain ⟨decoded, _, hperform⟩ := hcomes.performs hform
  rw [h.localVariables]
  exact ⟨decoded.next, s.before, s.after, hperform⟩

/-- A step that another one follows is performed with the offset of that one as the next offset. -/
theorem performs_before (h : Accepted pool method source rest code raw steps)
    (hnext : [s, s'] <:+: steps) (hform : ∀ form, s.instruction ≠ .shuffle form) :
    s.instruction.perform ⟨method, code.localVariables, s.pc, s'.pc⟩ s.before = .ok () s.after := by
  obtain ⟨place, following, hplaces, hcomes, hcomes'⟩ :=
    exists_neighbours (Premises.verify_comes h.verified) hnext
  obtain ⟨decoded, hdecoded, hperform⟩ := hcomes.performs hform
  obtain ⟨decoded', hdecoded', hpc⟩ := (lists_listing pool method raw.bytes).next_pc hplaces
  cases hdecoded.symm.trans hdecoded'
  have hpc' : s'.pc = decoded.next := hcomes'.pc.trans hpc.symm
  rw [h.localVariables, hpc']
  exact hperform

theorem isSubroutineCall_eq_false (h : Accepted pool method source rest code raw steps)
    (hversion : 51 ≤ method.version.major) : ∀ s ∈ steps, s.instruction.isSubroutineCall = false := by
  intro s hs
  rw [← Bool.not_eq_true]
  intro hcall
  have hv : s.verified ∈ code.instructions := by
    rw [h.instructions]
    exact List.mem_map_of_mem hs
  exact absurd hversion (UInt16.not_le.mpr (h.tiles.legacy_of_call s.verified hv hcall))

theorem store_agrees (h : Accepted pool method source rest code raw steps) (hnext : [s, s'] <:+: steps)
    {kind : ValueKind} {index : UInt16} (hstore : s.instruction = .store kind index)
    (hversion : kind = .reference → 51 ≤ method.version.major) :
    AgreesAt code.localVariables s'.pc index kind.category := by
  have hs : s ∈ steps := hnext.subset List.mem_cons_self
  have hperform := h.performs_before hnext (by rw [hstore]; exact nofun)
  rw [hstore] at hperform
  apply Setting.store_agrees hperform
  intro hkind
  exact h.returnAddress_notMem (h.isSubroutineCall_eq_false (hversion hkind)) hs

end Accepted

/-- A variable that passed its check lies within the limits, all of its slots included. -/
theorem LocalVariable.check_ok {v : LocalVariable} {maxLocals codeLength : UInt16}
    (h : v.check maxLocals codeLength = .ok ()) :
    v.index.toNat + ((v.type.map FieldType.size).getD 1).toNat - 1 < maxLocals.toNat ∧
      v.stop ≤ codeLength.toNat := by
  unfold LocalVariable.check at h
  dsimp only at h
  split at h
  · cases h
  · split at h
    · cases h
    · exact ⟨by omega, by omega⟩

section Reading

variable {pool : Pool} {method : MethodContext} {keepBytes : Bool} {source rest : Cursor} {code : Code}

theorem RawCode.check_variables {raw : RawCode} (h : raw.check pool method keepBytes = .ok code) :
    ∀ v ∈ code.localVariables, v.check code.maxLocals code.codeLength = .ok () := by
  unfold RawCode.check at h
  obtain ⟨_, hvariables, h⟩ := bind_ok.mp h
  obtain ⟨steps, _, h⟩ := bind_ok.mp h
  obtain ⟨_, _, h⟩ := bind_ok.mp h
  cases h
  exact forM_eq_ok.mp hvariables

theorem Code.read_variables (h : Code.read pool method keepBytes source = .ok code rest) :
    ∀ v ∈ code.localVariables, v.check code.maxLocals code.codeLength = .ok () := by
  unfold Code.read at h
  obtain ⟨raw, between, _, h⟩ := bind_run.mp h
  cases hcheck : raw.check pool method keepBytes with
  | error e =>
      rw [hcheck] at h
      cases h
  | ok found =>
      rw [hcheck] at h
      cases h
      exact RawCode.check_variables hcheck

/-- All code that is read respects its local variables. -/
theorem Code.read_variables_respected (h : Code.read pool method keepBytes source = .ok code rest) :
    code.RespectsVariables method.version := by
  obtain ⟨raw, steps, haccepted⟩ := Code.read_ok h
  have hchecks := Code.read_variables h
  constructor
  case loads =>
    intro i hi kind index hload
    obtain ⟨next, before, after, hperform⟩ := haccepted.performs hi (by rw [hload]; exact nofun)
    rw [hload] at hperform
    exact Setting.load_agrees hperform
  case increments =>
    intro i hi index delta hincrement
    obtain ⟨next, before, after, hperform⟩ := haccepted.performs hi (by rw [hincrement]; exact nofun)
    rw [hincrement] at hperform
    exact Setting.increment_agrees hperform
  case stores =>
    intro i next hnext kind index hstore hversion
    rw [haccepted.instructions] at hnext
    obtain ⟨pair, hpair, hverified⟩ := List.infix_map_iff.mp hnext
    obtain ⟨s, more, rfl, rfl, hmore⟩ := List.map_eq_cons_iff.mp hverified.symm
    obtain ⟨s', none, rfl, rfl, hnone⟩ := List.map_eq_cons_iff.mp hmore
    rw [List.map_eq_nil_iff.mp hnone] at hpair
    exact haccepted.store_agrees hpair hstore hversion
  case fits =>
    intro v hv
    obtain ⟨hslots, hstop⟩ := LocalVariable.check_ok (hchecks v hv)
    refine ⟨UInt16.lt_iff_toNat_lt.mpr ?_, hstop⟩
    have hsize : 1 ≤ ((v.type.map FieldType.size).getD 1).toNat := by
      cases v.type with
      | none => exact Nat.le_refl 1
      | some type => exact type.category.one_le_size
    omega
  case wideFits =>
    intro v hv type htype hwide
    obtain ⟨hslots, hstop⟩ := LocalVariable.check_ok (hchecks v hv)
    refine ⟨?_, hstop⟩
    have hsize : type.size.toNat = 2 := by
      apply Category.toNat_size_of_wide
      rcases hwide with h | h <;> rw [h] <;> rfl
    rw [htype, Option.map_some, Option.getD_some, hsize] at hslots
    exact hslots

end Reading

/-- A pool with the name of the attribute that holds local variables, and with what those are called. -/
def variablePool : Pool :=
  ⟨#[.vacant, .entry (.utf8 (.ofString "LocalVariableTable")), .entry (.utf8 (.ofString "x")),
    .entry (.utf8 (.ofString "I")), .entry (.utf8 (.ofString "Z")), .entry (.utf8 (.ofString "J"))]⟩

/-- Code that stores, increments and loads a number in a slot with two variables that are live at once, and
has a variable that takes two slots. The variables stand in two tables. -/
def overlappingVariables : Cursor :=
  .ofBytes [0, 1, 0, 3, 0, 0, 0, 8, 0x03, 0x3b, 0x84, 0, 1, 0x1a, 0x57, 0xb1, 0, 0, 0, 2,
    0, 1, 0, 0, 0, 22, 0, 2, 0, 2, 0, 5, 0, 2, 0, 3, 0, 0, 0, 0, 0, 8, 0, 2, 0, 5, 0, 1,
    0, 1, 0, 0, 0, 12, 0, 1, 0, 1, 0, 5, 0, 2, 0, 4, 0, 0]

theorem overlappingVariables_respected : ∃ code rest,
    Code.read variablePool sampleMethod false overlappingVariables = .ok code rest ∧
      code.localVariables.map LocalVariable.index = [0, 1, 0] ∧
      code.RespectsVariables sampleMethod.version := by
  obtain ⟨code, rest, hread, hindices⟩ : ∃ code rest,
      Code.read variablePool sampleMethod false overlappingVariables = .ok code rest ∧
        code.localVariables.map LocalVariable.index = [0, 1, 0] :=
    ok_of_success? (P := fun code : Code => code.localVariables.map LocalVariable.index = [0, 1, 0])
      (by decide +kernel)
  exact ⟨code, rest, hread, hindices, Code.read_variables_respected hread⟩

end ClassFile
