import ClassFile.Proofs.Verification.Accepted
import ClassFile.Proofs.Verification.Boundaries

/-! Control stays within code that was accepted. From each of its instructions it goes on to others of them,
the tables of the code name no other places, and the search for an instruction finds all of them. -/

namespace ClassFile

section Search

variable {instructions : Array VerifiedInstruction} {pc : UInt16} {i : VerifiedInstruction}

/-- Instructions stand in the order of their offsets. -/
def InOrder (instructions : Array VerifiedInstruction) : Prop :=
  ∀ (j k : Nat) (a b : VerifiedInstruction), j < k → instructions[j]? = some a →
    instructions[k]? = some b → a.pc < b.pc

theorem InOrder.lt_of_pc_lt (h : InOrder instructions) {j k : Nat} {a b : VerifiedInstruction}
    (ha : instructions[j]? = some a) (hb : instructions[k]? = some b) (hpc : a.pc < b.pc) : j < k := by
  rcases Nat.lt_trichotomy j k with hlt | rfl | hgt
  · exact hlt
  · rw [ha, Option.some.injEq] at hb
    rw [hb] at hpc
    exact absurd hpc (UInt16.lt_irrefl _)
  · exact absurd (h k j b a hgt hb ha) (UInt16.lt_asymm hpc)

theorem InOrder.eq_of_pc_eq (h : InOrder instructions) {j k : Nat} {a b : VerifiedInstruction}
    (ha : instructions[j]? = some a) (hb : instructions[k]? = some b) (hpc : a.pc = b.pc) : a = b := by
  rcases Nat.lt_trichotomy j k with hlt | rfl | hgt
  · exact absurd (hpc ▸ h j k a b hlt ha hb) (UInt16.lt_irrefl _)
  · rw [ha, Option.some.injEq] at hb
    exact hb
  · exact absurd (hpc ▸ h k j b a hgt hb ha) (UInt16.lt_irrefl _)

/-- The search goes on with the half in which the offset must lie. -/
theorem searchInstruction_eq_some (horder : InOrder instructions) {low high : Nat}
    (hhigh : high ≤ instructions.size) :
    searchInstruction instructions pc low high = some i ↔
      ∃ k, low ≤ k ∧ k < high ∧ instructions[k]? = some i ∧ i.pc = pc := by
  induction low, high using searchInstruction.induct instructions pc with
  | case1 low high hlt middle hnone =>
      rw [Array.getElem?_eq_none_iff] at hnone
      omega
  | case2 low high hlt middle found hfound hpc =>
      rw [searchInstruction, if_pos hlt]
      simp only [show instructions[low + (high - low) / 2]? = some found from hfound, hpc, if_true,
        Option.some.injEq]
      constructor
      · rintro rfl
        exact ⟨middle, by omega, by omega, hfound, hpc⟩
      · rintro ⟨k, _, _, hk, hi⟩
        exact horder.eq_of_pc_eq hfound hk (hpc.trans hi.symm)
  | case3 low high hlt middle found hfound hne hless ih =>
      rw [searchInstruction, if_pos hlt]
      simp only [show instructions[low + (high - low) / 2]? = some found from hfound, hne, hless,
        if_true, if_false]
      rw [ih hhigh]
      constructor
      · rintro ⟨k, hlow, hk, hi, hpc⟩
        exact ⟨k, by omega, hk, hi, hpc⟩
      · rintro ⟨k, hlow, hk, hi, hpc⟩
        exact ⟨k, horder.lt_of_pc_lt hfound hi (hpc ▸ hless), hk, hi, hpc⟩
  | case4 low high hlt middle found hfound hne hnotless ih =>
      rw [searchInstruction, if_pos hlt]
      simp only [show instructions[low + (high - low) / 2]? = some found from hfound, hne, hnotless,
        if_false]
      rw [ih (by omega)]
      constructor
      · rintro ⟨k, hlow, hk, hi, hpc⟩
        exact ⟨k, hlow, by omega, hi, hpc⟩
      · rintro ⟨k, hlow, hk, hi, hpc⟩
        have hmore : pc < found.pc :=
          UInt16.lt_of_le_of_ne (UInt16.not_lt.mp hnotless) (Ne.symm hne)
        exact ⟨k, hlow, horder.lt_of_pc_lt hi hfound (hpc ▸ hmore), hi, hpc⟩
  | case5 low high hlt =>
      rw [searchInstruction, if_neg hlt]
      constructor
      · rintro ⟨⟩
      · rintro ⟨k, hlow, hk, _⟩
        omega

/-- An instruction is found exactly if it is there. -/
theorem Code.instructionAt?_eq_some {code : Code}
    (hsorted : code.instructions.Pairwise fun a b => a.pc < b.pc) :
    code.instructionAt? pc = some i ↔ i ∈ code.instructions ∧ i.pc = pc := by
  have horder : InOrder code.instructions.toArray := by
    intro j k a b hjk ha hb
    rw [List.getElem?_toArray] at ha hb
    obtain ⟨hj, rfl⟩ := List.getElem?_eq_some_iff.mp ha
    obtain ⟨hk, rfl⟩ := List.getElem?_eq_some_iff.mp hb
    exact List.pairwise_iff_getElem.mp hsorted j k hj hk hjk
  unfold Code.instructionAt?
  rw [searchInstruction_eq_some horder (Nat.le_refl _), List.mem_iff_getElem?]
  constructor
  · rintro ⟨k, _, _, hi, hpc⟩
    exact ⟨⟨k, by rwa [List.getElem?_toArray] at hi⟩, hpc⟩
  · rintro ⟨⟨k, hi⟩, hpc⟩
    rw [← List.getElem?_toArray] at hi
    exact ⟨k, Nat.zero_le k, (Array.getElem?_eq_some_iff.mp hi).1, hi, hpc⟩

end Search

/-- Control stays within code whose bytes were listed. The code begins at its first byte and ends with a
transfer. Behind each instruction that is no transfer there is another one, where its bytes end. -/
structure Code.Closed (code : Code) (places : List ListedPlace) : Prop where
  begins : ∃ first rest, code.instructions = first :: rest ∧ first.pc = 0
  sorted : code.instructions.Pairwise fun a b => a.pc < b.pc
  ends : ∃ before last, code.instructions = before ++ [last] ∧ last.instruction.isTransfer = true
  falls : ∀ i ∈ code.instructions, i.instruction.isTransfer = false →
    ∃ place ∈ places, ∃ decoded, place.pc = i.pc ∧ place.decoded = .ok decoded ∧
      ∃ next, [i, next] <:+: code.instructions ∧ next.pc = decoded.next
  offsets : code.OffsetsInside
  search : ∀ pc i, code.instructionAt? pc = some i ↔ i ∈ code.instructions ∧ i.pc = pc

section Accepted

variable {pool : Pool} {method : MethodContext} {keepBytes : Bool} {source rest : Cursor} {code : Code}
  {raw : RawCode} {steps : List PassStep} {s s' : PassStep}

/-- Two steps that follow each other verify instructions that do so in the bytes. -/
theorem Accepted.next_pc (h : Accepted pool method source rest code raw steps)
    (hnext : [s, s'] <:+: steps) :
    ∃ place ∈ listing pool method raw.bytes, ∃ decoded, place.pc = s.pc ∧
      place.decoded = .ok decoded ∧ s'.pc = decoded.next := by
  obtain ⟨before, behind, rfl⟩ := hnext
  have hpcs := h.pcs.symm
  rw [List.map_append, List.map_append, List.append_assoc, List.map_eq_append_iff] at hpcs
  obtain ⟨placesBefore, others, hplaces, _, hothers⟩ := hpcs
  simp only [List.map_cons, List.map_nil, List.cons_append, List.nil_append,
    List.map_eq_cons_iff] at hothers
  obtain ⟨place, _, rfl, hplace, following, placesBehind, rfl, hfollowing, _⟩ := hothers
  have hfollows : [place, following] <:+: listing pool method raw.bytes :=
    ⟨placesBefore, placesBehind, by rw [hplaces]; simp⟩
  obtain ⟨decoded, hdecoded, hpc⟩ := (lists_listing pool method raw.bytes).next_pc hfollows
  refine ⟨place, ?_, decoded, hplace, hdecoded, ?_⟩
  · rw [hplaces]
    exact List.mem_append_right _ List.mem_cons_self
  · rw [hpc, hfollowing]

theorem Accepted.closed (h : Accepted pool method source rest code raw steps) :
    code.Closed (listing pool method raw.bytes) := by
  have hsorted : code.instructions.Pairwise fun a b => a.pc < b.pc := by
    rw [h.instructions]
    exact List.pairwise_map.mpr h.sorted
  refine ⟨?_, hsorted, ?_, ?_, Boundaries.check_ok h.offsets,
    fun pc i => Code.instructionAt?_eq_some hsorted⟩
  · obtain ⟨first, rest, rfl⟩ := List.exists_cons_of_ne_nil h.ne_nil
    refine ⟨first.verified, rest.map PassStep.verified, h.instructions, ?_⟩
    have hhead := listing_head pool method (RawCode.read_length h.read).1
    rw [← List.head?_map, ← h.pcs] at hhead
    exact Option.some.inj hhead
  · have hlast := List.dropLast_concat_getLast h.ne_nil
    refine ⟨steps.dropLast.map PassStep.verified, (steps.getLast h.ne_nil).verified, ?_,
      h.transfer_last hlast.symm⟩
    rw [h.instructions, ← List.map_singleton, ← List.map_append, hlast]
  · intro i hi htransfer
    rw [h.instructions, List.mem_map] at hi
    obtain ⟨s, hs, rfl⟩ := hi
    obtain ⟨s', hnext⟩ := h.falls hs htransfer
    obtain ⟨place, hplace, decoded, hpc, hdecoded, hbehind⟩ := h.next_pc hnext
    refine ⟨place, hplace, decoded, hpc, hdecoded, s'.verified, ?_, hbehind⟩
    rw [h.instructions]
    exact hnext.map PassStep.verified

end Accepted

/-- Control flow is closed in all code that is read. -/
theorem Code.read_closed {pool : Pool} {method : MethodContext} {keepBytes : Bool}
    {source rest : Cursor} {code : Code}
    (h : Code.read pool method keepBytes source = .ok code rest) :
    ∃ raw, RawCode.read pool method source = .ok raw rest ∧
      code.Closed (listing pool method raw.bytes) := by
  obtain ⟨raw, steps, haccepted⟩ := Code.read_ok h
  exact ⟨raw, haccepted.read, haccepted.closed⟩

/-- Code with a branch around an instruction and an exception handler behind its end. -/
def guardedBranch : Cursor :=
  .ofBytes [0, 1, 0, 0, 0, 0, 0, 8, 0x03, 0x99, 0, 4, 0, 0xb1, 0x57, 0xb1, 0, 1, 0, 0, 0, 4, 0, 6, 0, 0,
    0, 0]

theorem guardedBranch_closed :
    ∃ code rest, Code.read samplePool sampleMethod false guardedBranch = .ok code rest ∧
      ∃ raw, RawCode.read samplePool sampleMethod guardedBranch = .ok raw rest ∧
        code.Closed (listing samplePool sampleMethod raw.bytes) := by
  obtain ⟨code, rest, hread, _⟩ : ∃ code rest,
      Code.read samplePool sampleMethod false guardedBranch = .ok code rest ∧ True :=
    ok_of_success? (P := fun _ => True) (by decide +kernel)
  exact ⟨code, rest, hread, Code.read_closed hread⟩

end ClassFile
