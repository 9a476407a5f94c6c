import ClassFile.Proofs.Verification.Effects
import ClassFile.Proofs.Verification.Slots
import ClassFile.Verification.Loop

/-! The slots of local variables while code runs. Stores fill one or two of them and destroy the wide values
that they overwrite in part, so that a slot holds either a whole value, or a half of one whose other half is
next to it, or nothing. What the verifier knows of a slot that is stored to is what it holds then. -/

namespace ClassFile

/-- What slots hold while code runs. -/
abbrev Cells := Nat → LocalSlot

namespace Cells

/-- Stores a value of a category. The other half of a wide value that is overwritten in part is no value any
more. -/
def store (cells : Cells) (index : Nat) (c : Category) : Cells := fun i =>
  if i = index then .value c
  else if c.isWide ∧ i = index + 1 then .upper
  else if i + 1 = index ∧ (cells i).isWide then .unset
  else if i = index + c.size.toNat ∧ (cells (i - 1)).isWide ∧ cells i = .upper then .unset
  else cells i

/-- What an instruction does to the slots. -/
def perform (cells : Cells) : Instruction → Cells
  | .store kind index => cells.store index.toNat kind.category
  | _ => cells

/-- A slot holds an intact value of a category; a wide one has its second half behind it. -/
structure Holds (cells : Cells) (index : Nat) (c : Category) : Prop where
  value : cells index = .value c
  upper : c.isWide = true → cells (index + 1) = .upper

/-- All values are intact. -/
def Intact (cells : Cells) : Prop := ∀ index c, cells index = .value c → cells.Holds index c

variable {cells : Cells}

/-- A store leaves a value in a slot alone: it goes to other slots, and none of them is the second half. -/
structure Spares (index : Nat) (c : Category) (slot : Nat) (d : Category) : Prop where
  apart : slot < index ∨ index + c.size.toNat ≤ slot
  whole : d.isWide = true → slot + 1 ≠ index

theorem store_spared {index slot : Nat} {c d : Category} (h : Spares index c slot d)
    (hvalue : cells slot = .value d) : cells.store index c slot = .value d := by
  have hsize := c.toNat_size
  have hapart := h.apart
  unfold Cells.store
  rw [if_neg (by split at hsize <;> omega), if_neg, if_neg, if_neg, hvalue]
  · rintro ⟨_, _, hupper⟩
    rw [hvalue] at hupper
    cases hupper
  · rintro ⟨hindex, hwide⟩
    rw [hvalue] at hwide
    exact h.whole hwide hindex
  · rintro ⟨hwide, hslot⟩
    rw [if_pos hwide] at hsize
    omega

/-- A value that is there after a store was stored, or it was there before and was spared. -/
theorem value_of_store {index slot : Nat} {c d : Category}
    (h : cells.store index c slot = .value d) :
    slot = index ∧ c = d ∨ Spares index c slot d ∧ cells slot = .value d := by
  have hsize := c.toNat_size
  unfold Cells.store at h
  by_cases hfirst : slot = index
  · rw [if_pos hfirst] at h
    cases h
    exact .inl ⟨hfirst, rfl⟩
  rw [if_neg hfirst] at h
  by_cases hsecond : c.isWide = true ∧ slot = index + 1
  · rw [if_pos hsecond] at h
    cases h
  rw [if_neg hsecond] at h
  by_cases hbefore : slot + 1 = index ∧ (cells slot).isWide = true
  · rw [if_pos hbefore] at h
    cases h
  rw [if_neg hbefore] at h
  split at h
  · cases h
  refine .inr ⟨⟨?_, fun hwide hindex => hbefore ⟨hindex, by rw [h]; exact hwide⟩⟩, h⟩
  split at hsize
  · rename_i hwide
    have : slot ≠ index + 1 := fun hslot => hsecond ⟨hwide, hslot⟩
    omega
  · omega

theorem Intact.store (h : cells.Intact) (index : Nat) (c : Category) :
    (cells.store index c).Intact := by
  have hsize := c.toNat_size
  intro slot d hvalue
  refine ⟨hvalue, fun hwide => ?_⟩
  unfold Cells.store
  rcases value_of_store hvalue with ⟨rfl, rfl⟩ | ⟨hspares, hthere⟩
  · rw [if_neg (by omega), if_pos ⟨hwide, rfl⟩]
  · have hapart := hspares.apart
    have hnext := hspares.whole hwide
    have hupper := (h slot d hthere).upper hwide
    rw [if_neg hnext, if_neg, if_neg, if_neg, hupper]
    · rintro ⟨hindex, _⟩
      split at hsize <;> omega
    · rintro ⟨_, hnarrow⟩
      rw [hupper] at hnarrow
      cases hnarrow
    · rintro ⟨hc, hindex⟩
      rw [if_pos hc] at hsize
      omega

theorem Intact.perform (h : cells.Intact) (i : Instruction) : (cells.perform i).Intact := by
  cases i with
  | store kind index => exact h.store _ _
  | _ => exact h

end Cells

namespace Locals

variable {locals stored : Locals} {index maxLocals : UInt16} {c : Category}

theorem slot_eq_store (h : locals.store index c = .ok stored) :
    stored.slot = Cells.store locals.slot index.toNat c :=
  funext fun i => slot_store h i

theorem intact_unset (maxLocals : UInt16) : Cells.Intact (unset maxLocals).slot := by
  intro slot c hvalue
  rw [slot_unset] at hvalue
  cases hvalue

theorem intact_unknown (maxLocals : UInt16) : Cells.Intact (unknown maxLocals).slot := by
  intro slot c hvalue
  rw [unknown, slot_replicate] at hvalue
  split at hvalue <;> cases hvalue

theorem intact_store (h : locals.store index c = .ok stored) (hlocals : Cells.Intact locals.slot) :
    Cells.Intact stored.slot := by
  rw [slot_eq_store h]
  exact hlocals.store _ _

/-- The local variables that a method starts with are intact. -/
theorem intact_atEntry {isStatic : Bool} {descriptor : MethodDescriptor}
    (h : atEntry maxLocals isStatic descriptor = .ok stored) : Cells.Intact stored.slot :=
  storeAll_keeps (P := fun locals => Cells.Intact locals.slot) intact_store h (intact_unset maxLocals)

/-- Those that a frame describes are intact. -/
theorem intact_ofFrame {types : List VerificationType} (h : ofFrame maxLocals types = .ok stored) :
    Cells.Intact stored.slot :=
  storeFrame_keeps (P := fun locals => Cells.Intact locals.slot) intact_store h (intact_unset maxLocals)

/-- A known value that can be loaded is of the category that is asked for. -/
theorem load_ok {found : Category} (h : locals.load index c = .ok ())
    (hvalue : locals.slot index.toNat = .value found) : found = c := by
  obtain ⟨_, hunknown | ⟨hc, _⟩⟩ := load_ok_iff.mp h
  · rw [hvalue] at hunknown
    cases hunknown
  · rw [hvalue] at hc
    cases hc
    rfl

end Locals

/-- An instruction stores a value over a slot. -/
def Instruction.StoresOver (i : Instruction) (slot : Nat) : Prop :=
  ∃ kind index, i = .store kind index ∧ (SlotRange.mk index kind.category).covers slot = true

/-- If an instruction leaves a known value in a slot, then either it stored that value, or it left alone what
was there. -/
theorem Performed.tracks {i : Instruction} {before after : Machine} (h : Performed i before after)
    (haddress : .returnAddress ∉ before.stack.shape) {slot : Nat} {c : Category}
    (hvalue : after.locals.slot slot = .value c) :
    (i.StoresOver slot ∧ ∀ cells : Cells, cells.perform i slot = .value c) ∨
      (¬ i.StoresOver slot ∧ before.locals.slot slot = .value c ∧
        ∀ cells : Cells, cells slot = .value c → cells.perform i slot = .value c) := by
  by_cases hstore : ∀ kind index, i ≠ .store kind index
  · rw [h.quiet hstore] at hvalue
    refine .inr ⟨fun ⟨kind, index, hi, _⟩ => hstore kind index hi, hvalue, fun cells hcells => ?_⟩
    cases i with
    | store kind index => exact absurd rfl (hstore kind index)
    | _ => exact hcells
  simp only [ne_eq, Classical.not_forall, Classical.not_not] at hstore
  obtain ⟨kind, index, rfl⟩ := hstore
  obtain ⟨d, hstored, hcategory⟩ := h.stored kind index rfl
  obtain rfl : d = kind.category := hcategory.resolve_right fun hboth => haddress hboth.2
  rw [Locals.slot_eq_store hstored] at hvalue
  have hcovers : (SlotRange.mk index kind.category).covers slot = true ↔
      ¬ (slot < index.toNat ∨ index.toNat + kind.category.size.toNat ≤ slot) := by
    simp only [SlotRange.covers, Bool.and_eq_true, decide_eq_true_eq]
    omega
  rcases Cells.value_of_store hvalue with ⟨hfirst, hc⟩ | ⟨hspares, hthere⟩
  · refine .inl ⟨⟨kind, index, rfl, hcovers.mpr ?_⟩, fun cells => ?_⟩
    · have hsize := kind.category.toNat_size
      split at hsize <;> omega
    · rw [← hc]
      exact if_pos hfirst
  · refine .inr ⟨?_, hthere, fun cells hcells => Cells.store_spared hspares hcells⟩
    rintro ⟨_, _, hi, hover⟩
    cases hi
    exact hcovers.mp hover hspares.apart

end ClassFile
