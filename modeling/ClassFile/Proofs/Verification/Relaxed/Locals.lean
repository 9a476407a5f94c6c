import ClassFile.Proofs.Simulation
import ClassFile.Proofs.Verification.Branches
import ClassFile.Verification.Loop

/-! Local variables with more slots. Code that was verified with fewer slots never touches those behind them:
they stay as nothing was stored to them, or nothing is known of them, and neither disturbs a load, a
store, a join or a branch back. -/

namespace ClassFile

namespace Locals

/-- Local variables with the same values and with more slots behind them, which nothing was stored to. -/
structure Relaxed (few many : UInt16) (locals relaxed : Locals) : Prop where
  le : few ≤ many
  size : locals.slots.size = few.toNat
  size_relaxed : relaxed.slots.size = many.toNat
  slot : ∀ i < few.toNat, relaxed.slot i = locals.slot i
  behind : ∀ i, few.toNat ≤ i → relaxed.slot i = .unset ∨ relaxed.slot i = .unknown

namespace Relaxed

variable {few many : UInt16} {locals relaxed other other' : Locals}

theorem unset (h : few ≤ many) : Relaxed few many (.unset few) (.unset many) :=
  ⟨h, size_unset, size_unset, fun i _ => by rw [slot_unset, slot_unset], fun i _ => .inl (slot_unset i)⟩

theorem unknown (h : few ≤ many) : Relaxed few many (.unknown few) (.unknown many) := by
  have hle := UInt16.le_iff_toNat_le.mp h
  refine ⟨h, size_unknown, size_unknown, fun i hi => ?_, fun i hi => ?_⟩
  · rw [slot_unknown (by omega), slot_unknown hi]
  · rw [Locals.unknown, slot_replicate]
    split
    · exact .inr rfl
    · exact .inl rfl

theorem load (h : Relaxed few many locals relaxed) (index : UInt16) (c : Category) :
    Entails (fun _ _ => True) (locals.load index c) (relaxed.load index c) := by
  intro _ hload
  obtain ⟨hfits, hknown⟩ := load_ok_iff.mp hload
  have hsize := c.one_le_size
  have hle := UInt16.le_iff_toNat_le.mp h.le
  rw [h.size] at hfits
  refine ⟨(), load_ok_iff.mpr ⟨by rw [h.size_relaxed]; omega, ?_⟩, trivial⟩
  rw [h.slot index.toNat (by omega)]
  refine hknown.imp_right fun ⟨hvalue, hupper⟩ => ⟨hvalue, fun hwide => ?_⟩
  have htwo := Category.toNat_size_of_wide hwide
  rw [h.slot (index.toNat + 1) (by omega)]
  exact hupper hwide

theorem store (h : Relaxed few many locals relaxed) (index : UInt16) (c : Category) :
    Entails (Relaxed few many) (locals.store index c) (relaxed.store index c) := by
  intro stored hstored
  obtain ⟨hfits, _⟩ := store_eq hstored
  have hsize := c.one_le_size
  have hle := UInt16.le_iff_toNat_le.mp h.le
  rw [h.size] at hfits
  have hroom : index.toNat + c.size.toNat ≤ relaxed.slots.size := by
    rw [h.size_relaxed]
    omega
  obtain ⟨stored', hstored'⟩ := store_of_le hroom
  refine ⟨stored', hstored', h.le, (size_store hstored).trans h.size,
    (size_store hstored').trans h.size_relaxed, fun i hi => ?_, fun i hi => ?_⟩
  · rw [slot_store hstored', slot_store hstored, h.slot i hi, h.slot (i - 1) (by omega)]
  · -- no store reaches behind the old slots, and there is no second half there to be lost
    have hupper : relaxed.slot i ≠ .upper := by
      rcases h.behind i hi with hslot | hslot <;> rw [hslot] <;> exact nofun
    rw [slot_store hstored', if_neg (by omega), if_neg (fun hi => by have := Category.toNat_size_of_wide hi.1; omega),
      if_neg (by omega), if_neg (fun hi => hupper hi.2.2)]
    exact h.behind i hi

theorem storeAll (h : Relaxed few many locals relaxed) (index : UInt16) (categories : List Category) :
    Entails (Relaxed few many) (locals.storeAll index categories) (relaxed.storeAll index categories) := by
  induction categories generalizing locals relaxed index with
  | nil => exact .ok h
  | cons c rest ih => exact .bind (h.store index c) fun _ _ hstored => ih hstored _

theorem atEntry (h : few ≤ many) (isStatic : Bool) (descriptor : MethodDescriptor) :
    Entails (Relaxed few many) (Locals.atEntry few isStatic descriptor)
      (Locals.atEntry many isStatic descriptor) :=
  (unset h).storeAll 0 _

theorem storeFrame (h : Relaxed few many locals relaxed) (index : UInt16)
    (types : List VerificationType) :
    Entails (Relaxed few many) (locals.storeFrame index types) (relaxed.storeFrame index types) := by
  induction types generalizing locals relaxed index with
  | nil => exact .ok h
  | cons type rest ih =>
      have hle := UInt16.le_iff_toNat_le.mp h.le
      unfold Locals.storeFrame
      dsimp only
      rw [h.size, h.size_relaxed]
      split
      · exact .error
      rw [if_neg (by omega)]
      cases frameCategory type with
      | none => exact ih h _
      | some c => exact .bind (h.store index c) fun _ _ hstored => ih hstored _

theorem ofFrame (h : few ≤ many) (types : List VerificationType) :
    Entails (Relaxed few many) (Locals.ofFrame few types) (Locals.ofFrame many types) :=
  (unset h).storeFrame 0 types

theorem merge (h : Relaxed few many locals relaxed) (hother : Relaxed few many other other') :
    Relaxed few many (locals.merge other) (relaxed.merge other') := by
  have hsize := h.size.trans hother.size.symm
  have hsize' := h.size_relaxed.trans hother.size_relaxed.symm
  refine ⟨h.le, (size_merge _ _).trans h.size, (size_merge _ _).trans h.size_relaxed, fun i hi => ?_,
    fun i hi => ?_⟩
  · rw [slot_merge hsize, slot_merge hsize', h.slot i hi, hother.slot i hi]
  · rw [slot_merge hsize']
    split
    · exact h.behind i hi
    · exact .inr rfl

/-- A branch back brings nothing of note in the new slots: the loop was entered with nothing in them. -/
theorem changedSlot? (h : Relaxed few many locals relaxed) (hother : Relaxed few many other other')
    {body : List Instruction} (hnone : ClassFile.changedSlot? locals other body = none) :
    ClassFile.changedSlot? relaxed other' body = none := by
  unfold ClassFile.changedSlot? at hnone ⊢
  rw [List.find?_eq_none] at hnone ⊢
  intro i hi
  by_cases hold : i < few.toNat
  · rw [h.slot i hold, hother.slot i hold]
    exact hnone i (List.mem_range.mpr (h.size ▸ hold))
  · have hmay : (relaxed.slot i).mayBecome (other'.slot i) = true := by
      rcases h.behind i (Nat.le_of_not_lt hold) with hslot | hslot <;>
        simp [LocalSlot.mayBecome, hslot]
    simp [hmay]

theorem checkLoop (h : Relaxed few many locals relaxed) (hother : Relaxed few many other other')
    (body : List Instruction) :
    Entails (fun _ _ => True) (ClassFile.checkLoop locals other body)
      (ClassFile.checkLoop relaxed other' body) := by
  unfold ClassFile.checkLoop
  cases hchanged : ClassFile.changedSlot? locals other body with
  | none =>
      rw [h.changedSlot? hother hchanged]
      exact .ok trivial
  | some index => exact .error

end Relaxed

end Locals

end ClassFile
