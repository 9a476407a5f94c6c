import ClassFile.Proofs.Verification.Cells

/-! Stores one after the other, and what can be loaded after them. A value can be loaded exactly from where
it was stored, as long as no later store reached into its slots; the slots remember no more and no less. -/

namespace ClassFile

namespace SlotRange

/-- Two ranges share a slot. -/
def Overlaps (range other : SlotRange) : Prop :=
  ∃ slot, range.covers slot = true ∧ other.covers slot = true

/-- What was stored into a range by one of several stores is still there after the later ones. -/
def Survives (range : SlotRange) (stores : List SlotRange) : Prop :=
  ∃ earlier later, stores = earlier ++ range :: later ∧ ∀ other ∈ later, ¬ other.Overlaps range

variable {range other : SlotRange} {stores : List SlotRange}

theorem eq_of_toNat (hindex : range.index.toNat = other.index.toNat)
    (hcategory : range.category = other.category) : range = other := by
  cases range
  cases other
  rw [SlotRange.mk.injEq]
  exact ⟨UInt16.toNat_inj.mp hindex, hcategory⟩

theorem covers_iff {slot : Nat} :
    range.covers slot = true ↔
      range.index.toNat ≤ slot ∧ slot < range.index.toNat + range.category.size.toNat := by
  rw [covers, Bool.and_eq_true, decide_eq_true_eq, decide_eq_true_eq]

theorem not_overlaps_iff :
    ¬ range.Overlaps other ↔
      range.index.toNat + range.category.size.toNat ≤ other.index.toNat ∨
        other.index.toNat + other.category.size.toNat ≤ range.index.toNat := by
  have hrange := range.category.one_le_size
  have hother := other.category.one_le_size
  constructor
  · intro h
    -- if they overlap then in the slot where the later one of them starts
    apply Classical.byContradiction
    intro happart
    exact h ⟨max range.index.toNat other.index.toNat, covers_iff.mpr (by omega), covers_iff.mpr (by omega)⟩
  · rintro happart ⟨slot, hslot, hslot'⟩
    rw [covers_iff] at hslot hslot'
    omega

theorem spares_iff :
    Cells.Spares range.index.toNat range.category other.index.toNat other.category ↔
      ¬ range.Overlaps other := by
  have hsize := other.category.toNat_size
  rw [not_overlaps_iff]
  constructor
  · rintro ⟨hapart, hwhole⟩
    split at hsize
    · rename_i hwide
      have := hwhole hwide
      omega
    · omega
  · intro hapart
    refine ⟨?_, fun hwide => ?_⟩
    · have := other.category.one_le_size
      omega
    · rw [if_pos hwide] at hsize
      omega

theorem not_survives_nil : ¬ range.Survives [] := by
  rintro ⟨earlier, later, hstores, _⟩
  cases earlier <;> cases hstores

/-- A store is the last one that matters if it is the last one, or if the last one is elsewhere. -/
theorem survives_append_singleton :
    range.Survives (stores ++ [other]) ↔ other = range ∨ ¬ other.Overlaps range ∧ range.Survives stores := by
  constructor
  · rintro ⟨earlier, later, hstores, hlater⟩
    rcases later.eq_nil_or_concat with rfl | ⟨later, last, rfl⟩
    · exact .inl (List.singleton_inj.mp (List.append_inj' hstores rfl).2)
    · rw [List.concat_eq_append, ← List.cons_append, ← List.append_assoc] at hstores
      obtain ⟨rfl, hlast⟩ := List.append_inj' hstores rfl
      cases hlast
      rw [List.concat_eq_append] at hlater
      exact .inr ⟨hlater _ (by simp), earlier, later, rfl,
        fun other hother => hlater other (List.mem_append_left _ hother)⟩
  · rintro (rfl | ⟨hlast, earlier, later, rfl, hlater⟩)
    · exact ⟨stores, [], rfl, fun _ hother => absurd hother List.not_mem_nil⟩
    · refine ⟨earlier, later ++ [other], by simp, fun store hstore => ?_⟩
      rcases List.mem_append.mp hstore with hstore | hstore
      · exact hlater store hstore
      · rw [List.mem_singleton.mp hstore]
        exact hlast

end SlotRange

namespace Locals

variable {locals stored : Locals} {maxLocals : UInt16} {range : SlotRange} {stores : List SlotRange}

/-- Stores a value into a range. A store that fails changes nothing. -/
def attempt (locals : Locals) (range : SlotRange) : Locals :=
  match locals.store range.index range.category with
  | .ok stored => stored
  | .error _ => locals

/-- The stores that succeed when stores are attempted one after the other. -/
def succeeding (locals : Locals) : List SlotRange → List SlotRange
  | [] => []
  | range :: rest =>
    match locals.store range.index range.category with
    | .ok stored => range :: stored.succeeding rest
    | .error _ => locals.succeeding rest

/-- Slots know of the stores that went to them: all values are intact, and they are those that were stored
and that no later store reached into. -/
structure Remembers (maxLocals : UInt16) (stores : List SlotRange) (locals : Locals) : Prop where
  size : locals.slots.size = maxLocals.toNat
  intact : Cells.Intact locals.slot
  known : ∀ slot, locals.slot slot ≠ .unknown
  value : ∀ range : SlotRange,
    locals.slot range.index.toNat = .value range.category ↔ range.Survives stores

theorem remembers_unset (maxLocals : UInt16) : Remembers maxLocals [] (unset maxLocals) := by
  refine ⟨size_unset, intact_unset maxLocals, fun slot hunknown => ?_,
    fun range => ⟨fun hvalue => ?_, fun h => ?_⟩⟩
  · rw [slot_unset] at hunknown
    cases hunknown
  · rw [slot_unset] at hvalue
    cases hvalue
  · exact absurd h SlotRange.not_survives_nil

theorem unknown_of_store {index : UInt16} {c : Category} {slot : Nat}
    (h : locals.store index c = .ok stored) (hunknown : stored.slot slot = .unknown) :
    locals.slot slot = .unknown := by
  rw [slot_store h] at hunknown
  split at hunknown
  · cases hunknown
  split at hunknown
  · cases hunknown
  split at hunknown
  · cases hunknown
  split at hunknown
  · cases hunknown
  exact hunknown

theorem Remembers.store (h : Remembers maxLocals stores locals)
    (hstore : locals.store range.index range.category = .ok stored) :
    Remembers maxLocals (stores ++ [range]) stored := by
  refine ⟨(size_store hstore).trans h.size, intact_store hstore h.intact,
    fun slot hunknown => h.known slot (unknown_of_store hstore hunknown), fun other => ?_⟩
  rw [slot_eq_store hstore, SlotRange.survives_append_singleton, ← h.value, ← SlotRange.spares_iff]
  constructor
  · intro hvalue
    rcases Cells.value_of_store hvalue with ⟨hindex, hcategory⟩ | hspared
    · exact .inl (SlotRange.eq_of_toNat hindex.symm hcategory)
    · exact .inr hspared
  · rintro (rfl | ⟨hspares, hvalue⟩)
    · exact if_pos rfl
    · exact Cells.store_spared hspares hvalue

theorem Remembers.attempts (h : Remembers maxLocals stores locals) (calls : List SlotRange) :
    Remembers maxLocals (stores ++ locals.succeeding calls) (calls.foldl attempt locals) := by
  induction calls generalizing locals stores with
  | nil =>
      rw [succeeding, List.append_nil]
      exact h
  | cons range rest ih =>
      rw [List.foldl_cons, attempt, succeeding]
      cases hstore : locals.store range.index range.category with
      | error fault => exact ih h
      | ok stored =>
          have := ih (h.store hstore)
          rwa [← List.append_cons] at this

/-- After stores were attempted a value can be loaded exactly if it fits, if one of the stores that succeeded
stored such a value there, and if none that succeeded later reached into its slots. -/
theorem load_attempts_ok_iff (maxLocals : UInt16) (calls : List SlotRange) (range : SlotRange) :
    (calls.foldl attempt (unset maxLocals)).load range.index range.category = .ok () ↔
      range.index.toNat + range.category.size.toNat ≤ maxLocals.toNat ∧
        ∃ earlier later, (unset maxLocals).succeeding calls = earlier ++ range :: later ∧
          ∀ other ∈ later, ¬ other.Overlaps range := by
  have h := (remembers_unset maxLocals).attempts calls
  rw [List.nil_append] at h
  rw [load_ok_iff, h.size]
  refine and_congr_right fun _ => ?_
  change _ ↔ range.Survives _
  rw [← h.value]
  constructor
  · rintro (hunknown | ⟨hvalue, _⟩)
    · exact absurd hunknown (h.known _)
    · exact hvalue
  · intro hvalue
    exact .inr ⟨hvalue, fun hwide => .inl ((h.intact _ _ hvalue).upper hwide)⟩

end Locals

end ClassFile
