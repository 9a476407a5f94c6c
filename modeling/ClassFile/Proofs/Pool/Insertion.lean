import ClassFile.Proofs.Pool.Validated

/-! Filling a constant pool. Entries may be put at any indices in any order. One is refused if its index is
not free, or the next one that a wide entry takes too, and then the pool is left as it was. -/

namespace ClassFile.Pool

/-- Whether an entry is of one of the kinds that take two indices. -/
def Entry.Wide (entry : Entry) : Prop := entry.tag = .long ∨ entry.tag = .double

/-- There is room for an entry at an index. -/
structure HasRoom (pool : Pool) (count index : UInt16) (entry : Entry) : Prop where
  positive : 1 ≤ index
  inside : index < count
  free : pool.slots[index.toNat]? = some .vacant
  next : entry.Wide → index.toNat + 1 < count.toNat ∧ pool.slots[index.toNat + 1]? = some .vacant

/-- The pool with an entry at an index, whatever stood there. -/
def put (pool : Pool) (index : UInt16) (entry : Entry) : Pool :=
  let slots :=
    if entry.tag.isWide then pool.slots.setIfInBounds (index.toNat + 1) .phantom else pool.slots
  ⟨slots.setIfInBounds index.toNat (.entry entry)⟩

/-- A pool that is being filled, and the entries that were put into it with their indices, the last one
first. -/
structure History where
  pool : Pool
  made : List (UInt16 × Entry)

namespace History

/-- Tries to put another entry into the pool. -/
def attempt (h : History) (call : UInt16 × Entry) : History :=
  match fill call.1 call.2 h.pool with
  | .ok () pool => ⟨pool, call :: h.made⟩
  | .error _ pool => ⟨pool, h.made⟩

/-- Tries to put entries at indices into a new pool with a count, one after the other. -/
def ofCalls (count : UInt16) (calls : List (UInt16 × Entry)) : History :=
  calls.foldl attempt ⟨empty count, []⟩

end History

section Fill

variable {pool : Pool} {count index : UInt16} {entry : Entry}

theorem Entry.wide_iff : entry.Wide ↔ entry.tag.isWide = true := by
  have htag : ∀ tag : Tag, tag = .long ∨ tag = .double ↔ tag.isWide = true := by
    intro tag
    cases tag <;> decide
  exact htag entry.tag

theorem requireFree_run (pool : Pool) (index : UInt16) :
    (1 ≤ index ∧ pool.slots[index.toNat]? = some .vacant ∧ requireFree index pool = .ok () pool) ∨
    (¬(1 ≤ index ∧ pool.slots[index.toNat]? = some .vacant) ∧
      ∃ located, requireFree index pool = .error located pool) := by
  unfold requireFree
  by_cases hzero : index = 0
  · rw [if_pos hzero]
    refine .inr ⟨fun h => ?_, _, rfl⟩
    rw [hzero] at h
    exact absurd h.1 (by decide)
  · have hpositive : 1 ≤ index := by
      rw [UInt16.le_iff_toNat_le]
      exact Nat.one_le_iff_ne_zero.mpr fun h => hzero (UInt16.toNat_inj.mp h)
    rw [if_neg hzero]
    dsimp only
    rw [get_bind_run]
    rcases pool.slots[index.toNat]? with _ | _ | _ | _
    · exact .inr ⟨nofun, _, rfl⟩
    · exact .inl ⟨hpositive, rfl, rfl⟩
    · exact .inr ⟨nofun, _, rfl⟩
    · exact .inr ⟨nofun, _, rfl⟩

theorem claimSuccessor_run (pool : Pool) (index : UInt16) (tag : Tag) :
    (pool.slots[index.toNat + 1]? = some .vacant ∧
      claimSuccessor index tag pool = .ok () ⟨pool.slots.setIfInBounds (index.toNat + 1) .phantom⟩) ∨
    (pool.slots[index.toNat + 1]? ≠ some .vacant ∧
      ∃ located, claimSuccessor index tag pool = .error located pool) := by
  rw [claimSuccessor, get_bind_run]
  rcases pool.slots[index.toNat + 1]? with _ | _ | _ | _
  · exact .inr ⟨nofun, _, rfl⟩
  · exact .inl ⟨rfl, rfl⟩
  · exact .inr ⟨nofun, _, rfl⟩
  · exact .inr ⟨nofun, _, rfl⟩

/-- Where there is room the entry is put, and otherwise nothing was written when the fault is found. -/
theorem fill_run (hcount : pool.slots.size = count.toNat) (index : UInt16) (entry : Entry) :
    (pool.HasRoom count index entry ∧ fill index entry pool = .ok () (pool.put index entry)) ∨
    (¬pool.HasRoom count index entry ∧ ∃ located, fill index entry pool = .error located pool) := by
  unfold fill
  rcases pool.requireFree_run index with ⟨hpositive, hfree, hrun⟩ | ⟨htaken, located, hrun⟩
  · have hinside : index < count :=
      UInt16.lt_iff_toNat_lt.mpr (hcount ▸ (Array.getElem?_eq_some_iff.mp hfree).1)
    by_cases hwide : entry.tag.isWide = true
    · rw [if_pos hwide]
      rcases pool.claimSuccessor_run index entry.tag with ⟨hnext, hclaim⟩ | ⟨hnext, located, hclaim⟩
      · have hbehind := hcount ▸ (Array.getElem?_eq_some_iff.mp hnext).1
        refine .inl ⟨⟨hpositive, hinside, hfree, fun _ => ⟨hbehind, hnext⟩⟩, ?_⟩
        rw [put, if_pos hwide]
        exact bind_run.mpr ⟨(), pool, hrun, bind_run.mpr ⟨(), _, hclaim, rfl⟩⟩
      · refine .inr ⟨fun hroom => hnext (hroom.next (Entry.wide_iff.mpr hwide)).2, located, ?_⟩
        exact bind_run_error.mpr (.inr ⟨(), pool, hrun, bind_run_error.mpr (.inl hclaim)⟩)
    · rw [if_neg hwide]
      refine .inl ⟨⟨hpositive, hinside, hfree, fun h => absurd (Entry.wide_iff.mp h) hwide⟩, ?_⟩
      rw [put, if_neg hwide]
      exact bind_run.mpr ⟨(), pool, hrun, rfl⟩
  · exact .inr ⟨fun hroom => htaken ⟨hroom.positive, hroom.free⟩, located, bind_run_error.mpr (.inl hrun)⟩

theorem insert_ok {after : Pool} :
    pool.insert index entry = .ok after ↔ fill index entry pool = .ok () after := by
  unfold insert
  cases fill index entry pool with
  | ok _ filled => simp
  | error located left => simp

theorem size_put : (pool.put index entry).slots.size = pool.slots.size := by
  unfold put
  dsimp only
  split <;> simp only [Array.size_setIfInBounds]

theorem slots_put (hroom : pool.HasRoom count index entry) (i : Nat) :
    (pool.put index entry).slots[i]? =
      if i = index.toNat then some (.entry entry)
      else if entry.tag.isWide ∧ i = index.toNat + 1 then some .phantom
      else pool.slots[i]? := by
  have hinside := (Array.getElem?_eq_some_iff.mp hroom.free).1
  unfold put
  dsimp only
  by_cases hwide : entry.tag.isWide = true
  · have hnext := (Array.getElem?_eq_some_iff.mp (hroom.next (Entry.wide_iff.mpr hwide)).2).1
    rw [if_pos hwide, Array.getElem?_setIfInBounds, Array.getElem?_setIfInBounds, Array.size_setIfInBounds]
    simp only [hwide, true_and, hinside, hnext, if_true, eq_comm (a := i)]
  · rw [if_neg hwide, Array.getElem?_setIfInBounds]
    simp only [hwide, Bool.false_eq_true, false_and, hinside, if_true, if_false, eq_comm (a := i)]

/-- Putting an entry adds it to the entries that there are. -/
theorem getElem?_put_entry (hroom : pool.HasRoom count index entry) {i : Nat} {found : Entry} :
    (pool.put index entry).slots[i]? = some (.entry found) ↔
      (i = index.toNat ∧ found = entry) ∨ pool.slots[i]? = some (.entry found) := by
  rw [slots_put hroom]
  split
  · rename_i hput
    rw [hput, hroom.free]
    simp [eq_comm]
  · rename_i hput
    split
    · rename_i hbehind
      rw [hbehind.2, (hroom.next (Entry.wide_iff.mpr hbehind.1)).2]
      simp
    · simp [hput]

/-- Putting an entry adds a phantom to those that there are, if the entry is wide. -/
theorem getElem?_put_phantom (hroom : pool.HasRoom count index entry) {i : Nat} :
    (pool.put index entry).slots[i]? = some .phantom ↔
      (entry.Wide ∧ i = index.toNat + 1) ∨ pool.slots[i]? = some .phantom := by
  rw [slots_put hroom, Entry.wide_iff]
  split
  · rename_i hput
    rw [hput, hroom.free]
    simp
  · split
    · rename_i hbehind
      simp [hbehind]
    · rename_i hbehind
      simp [hbehind]

end Fill

namespace History

/-- The invariant of filling. The entries of the pool are those that were put, index zero stays free, and a
phantom stands behind each wide entry and nowhere else. -/
structure Filled (count : UInt16) (h : History) : Prop where
  size : h.pool.slots.size = count.toNat
  zero : ∀ slot, h.pool.slots[0]? = some slot → slot = .vacant
  phantom : ∀ i, h.pool.slots[i + 1]? = some .phantom ↔
    ∃ entry, h.pool.slots[i]? = some (.entry entry) ∧ entry.Wide
  made : ∀ index entry, h.pool.slots[index.toNat]? = some (.entry entry) ↔ (index, entry) ∈ h.made

variable {h : History} {count : UInt16}

theorem filled_empty (count : UInt16) : Filled count ⟨empty count, []⟩ := by
  have hvacant : ∀ (i : Nat) (slot : Slot), (empty count).slots[i]? = some slot → slot = .vacant := by
    intro i slot hslot
    rw [empty, Array.getElem?_replicate] at hslot
    split at hslot
    · exact (Option.some.inj hslot).symm
    · cases hslot
  refine ⟨Array.size_replicate, hvacant 0, fun i => ⟨?_, ?_⟩, fun index entry => ⟨?_, nofun⟩⟩
  · exact fun hslot => nomatch hvacant _ _ hslot
  · exact fun ⟨_, hslot, _⟩ => nomatch hvacant _ _ hslot
  · exact fun hslot => nomatch hvacant _ _ hslot

/-- Putting an entry where there is room keeps the invariant. -/
theorem Filled.put (hfilled : Filled count h) {index : UInt16} {entry : Entry}
    (hroom : h.pool.HasRoom count index entry) :
    Filled count ⟨h.pool.put index entry, (index, entry) :: h.made⟩ := by
  refine ⟨size_put.trans hfilled.size, fun slot hslot => ?_, fun i => ?_, fun i found => ?_⟩
  · have hpositive : 1 ≤ index.toNat := UInt16.le_iff_toNat_le.mp hroom.positive
    rw [slots_put hroom, if_neg (by omega), if_neg (by omega)] at hslot
    exact hfilled.zero slot hslot
  · simp only [getElem?_put_entry hroom]
    rw [getElem?_put_phantom hroom, hfilled.phantom, Nat.add_right_cancel_iff]
    constructor
    · rintro (⟨hwide, hi⟩ | ⟨found, hfound, hwide⟩)
      · exact ⟨entry, .inl ⟨hi, rfl⟩, hwide⟩
      · exact ⟨found, .inr hfound, hwide⟩
    · rintro ⟨found, ⟨hi, rfl⟩ | hfound, hwide⟩
      · exact .inl ⟨hwide, hi⟩
      · exact .inr ⟨found, hfound, hwide⟩
  · rw [getElem?_put_entry hroom, hfilled.made, UInt16.toNat_inj, List.mem_cons, Prod.mk.injEq]

theorem Filled.attempt (hfilled : Filled count h) (call : UInt16 × Entry) :
    Filled count (h.attempt call) := by
  unfold History.attempt
  rcases fill_run hfilled.size call.1 call.2 with ⟨hroom, hrun⟩ | ⟨_, located, hrun⟩
  · rw [hrun]
    exact hfilled.put hroom
  · rw [hrun]
    exact hfilled

theorem filled_ofCalls (count : UInt16) (calls : List (UInt16 × Entry)) :
    Filled count (ofCalls count calls) := by
  have hall : ∀ h, Filled count h → Filled count (calls.foldl History.attempt h) := by
    induction calls with
    | nil => exact fun _ hfilled => hfilled
    | cons call rest ih => exact fun h hfilled => ih _ (hfilled.attempt call)
  exact hall _ (filled_empty count)

theorem Filled.entry_ok (hfilled : Filled count h) {index : UInt16} {entry : Entry} :
    h.pool.entry index = .ok entry ↔ (index, entry) ∈ h.made := by
  rw [Pool.entry_ok, ← hfilled.made]
  refine ⟨And.right, fun hslot => ⟨?_, hslot⟩⟩
  rintro rfl
  exact nomatch hfilled.zero _ hslot

theorem Filled.entry_phantom (hfilled : Filled count h) {index : UInt16} :
    h.pool.entry index = .error ⟨index, .phantomSlot⟩ ↔ h.pool.slots[index.toNat]? = some .phantom := by
  constructor
  · intro herror
    unfold Pool.entry at herror
    split at herror
    · cases herror
    · split at herror
      · cases herror
      · cases herror
      · assumption
      · cases herror
  · intro hslot
    have hindex : index ≠ 0 := by
      rintro rfl
      exact nomatch hfilled.zero _ hslot
    rw [Pool.entry, if_neg hindex, hslot]

/-- Whatever was tried to put into a pool before: an entry is put exactly if there is room for it, and the
pool is left as it is otherwise. Phantoms stand behind the wide entries and nowhere else, index zero is never
filled, and looking up an index gives the entry that was put there, the fault of a phantom at a phantom, and
no entry anywhere else. -/
theorem ofCalls_lawful (count : UInt16) (calls : List (UInt16 × Entry)) :
    let h := ofCalls count calls
    (∀ index entry, (∃ pool, h.pool.insert index entry = .ok pool) ↔ h.pool.HasRoom count index entry) ∧
    (∀ index entry pool, h.pool.insert index entry = .ok pool ↔ fill index entry h.pool = .ok () pool) ∧
    (∀ index entry located pool, fill index entry h.pool = .error located pool → pool = h.pool) ∧
    (∀ i, h.pool.slots[i + 1]? = some .phantom ↔
      ∃ entry, h.pool.slots[i]? = some (.entry entry) ∧ entry.Wide) ∧
    (∀ slot, h.pool.slots[0]? = some slot → slot = .vacant) ∧
    (∀ index entry, h.pool.entry index = .ok entry ↔ (index, entry) ∈ h.made) ∧
    ∀ index, h.pool.entry index = .error ⟨index, .phantomSlot⟩ ↔
      h.pool.slots[index.toNat]? = some .phantom := by
  intro h
  have hfilled : Filled count h := filled_ofCalls count calls
  refine ⟨fun index entry => ?_, fun _ _ _ => insert_ok, fun index entry located pool hfill => ?_,
    hfilled.phantom, hfilled.zero, fun _ _ => hfilled.entry_ok, fun _ => hfilled.entry_phantom⟩
  · simp only [insert_ok]
    rcases fill_run hfilled.size index entry with ⟨hroom, hrun⟩ | ⟨hnone, located, hrun⟩
    · exact ⟨fun _ => hroom, fun _ => ⟨_, hrun⟩⟩
    · rw [hrun]
      exact ⟨nofun, fun hroom => absurd hroom hnone⟩
  · rcases fill_run hfilled.size index entry with ⟨_, hrun⟩ | ⟨_, _, hrun⟩
    · rw [hrun] at hfill
      cases hfill
    · rw [hrun] at hfill
      cases hfill
      rfl

end History

end ClassFile.Pool
