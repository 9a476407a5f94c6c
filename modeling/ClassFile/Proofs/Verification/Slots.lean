import ClassFile.Proofs.Success
import ClassFile.Verification.Locals

/-! What stores do to the slots of local variables: what is found in each slot afterwards, and that there
are as many of them as before. -/

namespace ClassFile.Category

theorem toNat_size (c : Category) : c.size.toNat = if c.isWide then 2 else 1 := by
  cases c <;> rfl

theorem toNat_size_of_wide {c : Category} (h : c.isWide = true) : c.size.toNat = 2 := by
  rw [toNat_size, if_pos h]

theorem one_le_size (c : Category) : 1 ≤ c.size.toNat := by
  cases c <;> decide

end ClassFile.Category

namespace ClassFile.Locals

variable {locals stored : Locals} {index : UInt16} {c : Category}

theorem slot_eq_unset {index : Nat} (h : locals.slots.size ≤ index) : locals.slot index = .unset := by
  rw [slot, Array.getD_eq_getD_getElem?, Array.getElem?_eq_none h, Option.getD_none]

theorem ext_slot {a b : Locals} (hsize : a.slots.size = b.slots.size)
    (hslot : ∀ index, a.slot index = b.slot index) : a = b := by
  obtain ⟨slots⟩ := a
  obtain ⟨slots'⟩ := b
  refine congrArg mk (Array.ext hsize fun index hindex hindex' => ?_)
  have := hslot index
  simpa [slot, Array.getD_eq_getD_getElem?, hindex, hindex'] using this

theorem slot_replicate (n : Nat) (held : LocalSlot) (i : Nat) :
    (⟨Array.replicate n held⟩ : Locals).slot i = if i < n then held else .unset := by
  simp only [slot, Array.getD_eq_getD_getElem?, Array.getElem?_replicate]
  split <;> rfl

theorem slot_set {slots : Array LocalSlot} {place : Nat} {held : LocalSlot} (i : Nat)
    (hplace : place < slots.size) :
    (⟨slots.setIfInBounds place held⟩ : Locals).slot i =
      if i = place then held else (⟨slots⟩ : Locals).slot i := by
  simp only [slot, Array.getD_eq_getD_getElem?, Array.getElem?_setIfInBounds]
  by_cases hi : i = place
  · subst hi
    simp [hplace]
  · rw [if_neg (Ne.symm hi), if_neg hi]

theorem size_dropBefore (locals : Locals) (place : Nat) :
    (locals.dropBefore place).slots.size = locals.slots.size := by
  unfold dropBefore
  split
  · exact Array.size_setIfInBounds
  · rfl

theorem size_dropUpper (locals : Locals) (place : Nat) :
    (locals.dropUpper place).slots.size = locals.slots.size := by
  unfold dropUpper
  split
  · exact Array.size_setIfInBounds
  · rfl

theorem slot_dropBefore {place : Nat} (hplace : place < locals.slots.size) (i : Nat) :
    (locals.dropBefore place).slot i =
      if i + 1 = place ∧ (locals.slot i).isWide then .unset else locals.slot i := by
  unfold dropBefore
  by_cases hdrop : 0 < place ∧ (locals.slot (place - 1)).isWide = true
  · rw [if_pos hdrop, slot_set i (by omega)]
    by_cases hi : i = place - 1
    · rw [if_pos hi, if_pos ⟨by omega, hi ▸ hdrop.2⟩]
    · rw [if_neg hi, if_neg (fun h => hi (by omega))]
  · rw [if_neg hdrop, if_neg]
    rintro ⟨hi, hwide⟩
    refine hdrop ⟨by omega, ?_⟩
    rwa [show place - 1 = i by omega]

theorem slot_dropUpper {place : Nat} (i : Nat) :
    (locals.dropUpper place).slot i =
      if i = place + 1 ∧ (locals.slot place).isWide ∧ locals.slot i = .upper then .unset
      else locals.slot i := by
  unfold dropUpper
  by_cases hdrop : (locals.slot place).isWide = true ∧ locals.slot (place + 1) = .upper
  · have hplace : place + 1 < locals.slots.size := by
      apply Nat.lt_of_not_le
      intro hout
      rw [slot_eq_unset hout] at hdrop
      cases hdrop.2
    rw [if_pos hdrop, slot_set i hplace]
    by_cases hi : i = place + 1
    · rw [if_pos hi, if_pos ⟨hi, hdrop.1, hi ▸ hdrop.2⟩]
    · rw [if_neg hi, if_neg fun h => hi h.1]
  · rw [if_neg hdrop, if_neg]
    rintro ⟨rfl, hwide, hupper⟩
    exact hdrop ⟨hwide, hupper⟩

theorem checkIndex_ok (h : locals.checkIndex index c = .ok ()) :
    index.toNat + c.size.toNat ≤ locals.slots.size := by
  unfold checkIndex at h
  dsimp only at h
  have hsize := c.one_le_size
  split at h
  · cases h
  · omega

theorem checkIndex_of_le (h : index.toNat + c.size.toNat ≤ locals.slots.size) :
    locals.checkIndex index c = .ok () := by
  have hsize := c.one_le_size
  unfold checkIndex
  dsimp only
  exact if_neg (by omega)

theorem store_of_le (h : index.toNat + c.size.toNat ≤ locals.slots.size) :
    ∃ stored, locals.store index c = .ok stored :=
  ⟨_, bind_ok.mpr ⟨(), checkIndex_of_le h, rfl⟩⟩

theorem store_of_lt (h : locals.slots.size < index.toNat + c.size.toNat) :
    locals.store index c = .error (.invalidLocal (index.toNat + c.size.toNat - 1) locals.maxLocals) := by
  rw [store, checkIndex]
  dsimp only
  rw [if_pos (by omega)]
  rfl

/-- A load succeeds if the slots are there and nothing is known of the first one, or it holds such a value
and the second half of a wide one may still be behind it. -/
theorem load_ok_iff :
    locals.load index c = .ok () ↔
      index.toNat + c.size.toNat ≤ locals.slots.size ∧
        (locals.slot index.toNat = .unknown ∨
          locals.slot index.toNat = .value c ∧ (c.isWide = true →
            locals.slot (index.toNat + 1) = .upper ∨ locals.slot (index.toNat + 1) = .unknown)) := by
  unfold load
  rw [bind_ok]
  constructor
  · rintro ⟨_, hcheck, h⟩
    refine ⟨checkIndex_ok hcheck, ?_⟩
    cases hslot : locals.slot index.toNat with
    | unset => simp [hslot] at h
    | upper => simp [hslot] at h
    | unknown => exact .inl rfl
    | value found =>
        simp only [hslot] at h
        split at h
        · cases h
        rename_i hfound
        split at h
        · cases h
        rename_i hupper
        refine .inr ⟨congrArg LocalSlot.value (Classical.not_not.mp hfound), fun hwide => ?_⟩
        simpa [hwide, Classical.or_iff_not_imp_left] using hupper
  · rintro ⟨hfits, hknown⟩
    refine ⟨(), checkIndex_of_le hfits, ?_⟩
    rcases hknown with hslot | ⟨hslot, hupper⟩
    · rw [hslot]
    · simp only [hslot, ne_eq, not_true_eq_false, if_false]
      rw [if_neg]
      simpa [Classical.or_iff_not_imp_left] using hupper

theorem store_eq (h : locals.store index c = .ok stored) :
    index.toNat + c.size.toNat ≤ locals.slots.size ∧
      stored =
        let first := index.toNat
        let cleared := (locals.dropBefore first).dropUpper (first + c.size.toNat - 1)
        let slots := cleared.slots.setIfInBounds first (.value c)
        ⟨if c.isWide then slots.setIfInBounds (first + 1) .upper else slots⟩ := by
  unfold store at h
  obtain ⟨_, hcheck, h⟩ := bind_ok.mp h
  cases h
  exact ⟨checkIndex_ok hcheck, rfl⟩

theorem size_store (h : locals.store index c = .ok stored) :
    stored.slots.size = locals.slots.size := by
  obtain ⟨_, rfl⟩ := store_eq h
  dsimp only
  split <;> simp only [Array.size_setIfInBounds, size_dropUpper, size_dropBefore]

/-- What a slot holds after a store: the value or its second half, nothing if the store cut a wide value
that reached into the slot, and otherwise what was there. -/
theorem slot_store (h : locals.store index c = .ok stored) (i : Nat) :
    stored.slot i =
      if i = index.toNat then .value c
      else if c.isWide ∧ i = index.toNat + 1 then .upper
      else if i + 1 = index.toNat ∧ (locals.slot i).isWide then .unset
      else if i = index.toNat + c.size.toNat ∧ (locals.slot (i - 1)).isWide ∧ locals.slot i = .upper
        then .unset
      else locals.slot i := by
  obtain ⟨hfits, rfl⟩ := store_eq h
  have hpositive := c.one_le_size
  have hcleared : ∀ i, index.toNat ≤ i →
      (locals.dropBefore index.toNat).slot i = locals.slot i := by
    intro i hi
    rw [slot_dropBefore (by omega), if_neg (fun h => by omega)]
  have hplaced : ∀ i, (⟨((locals.dropBefore index.toNat).dropUpper
      (index.toNat + c.size.toNat - 1)).slots.setIfInBounds index.toNat (.value c)⟩ : Locals).slot i =
      if i = index.toNat then .value c
      else if i + 1 = index.toNat ∧ (locals.slot i).isWide then .unset
      else if i = index.toNat + c.size.toNat ∧ (locals.slot (i - 1)).isWide ∧ locals.slot i = .upper
        then .unset
      else locals.slot i := by
    intro i
    rw [slot_set i (by rw [size_dropUpper, size_dropBefore]; omega), slot_dropUpper,
      show index.toNat + c.size.toNat - 1 + 1 = index.toNat + c.size.toNat by omega,
      hcleared _ (by omega)]
    by_cases hbehind : i = index.toNat + c.size.toNat
    · rw [hbehind, hcleared _ (by omega),
        if_neg (fun h : index.toNat + c.size.toNat + 1 = index.toNat ∧ _ => by omega)]
    · simp only [hbehind, false_and, if_false]
      rw [slot_dropBefore (by omega)]
  by_cases hc : c.isWide = true
  · simp only [hc, if_true, true_and]
    rw [slot_set i (by
      rw [Array.size_setIfInBounds, size_dropUpper, size_dropBefore]
      have := Category.toNat_size_of_wide hc
      omega), hplaced]
    by_cases hi : i = index.toNat
    · rw [if_neg (by omega), if_pos hi, if_pos hi]
    · rw [if_neg hi, if_neg hi]
  · dsimp only
    rw [if_neg hc, hplaced]
    simp only [hc, Bool.false_eq_true, false_and, if_false]

/-- What every store keeps, storing values one behind the other keeps. -/
theorem storeAll_keeps {P : Locals → Prop}
    (hstore : ∀ {locals stored index c}, store locals index c = .ok stored → P locals → P stored)
    {categories : List Category} (h : locals.storeAll index categories = .ok stored) (hlocals : P locals) :
    P stored := by
  induction categories generalizing locals index with
  | nil =>
      cases h
      exact hlocals
  | cons c rest ih =>
      obtain ⟨first, hfirst, hrest⟩ := bind_ok.mp h
      exact ih hrest (hstore hfirst hlocals)

/-- What every store keeps, storing what a frame describes keeps. -/
theorem storeFrame_keeps {P : Locals → Prop}
    (hstore : ∀ {locals stored index c}, store locals index c = .ok stored → P locals → P stored)
    {types : List VerificationType} (h : locals.storeFrame index types = .ok stored) (hlocals : P locals) :
    P stored := by
  induction types generalizing locals index with
  | nil =>
      cases h
      exact hlocals
  | cons type rest ih =>
      unfold storeFrame at h
      dsimp only at h
      split at h
      · cases h
      cases hcategory : frameCategory type with
      | none =>
          simp only [hcategory] at h
          exact ih h hlocals
      | some c =>
          simp only [hcategory] at h
          obtain ⟨first, hfirst, hrest⟩ := bind_ok.mp h
          exact ih hrest (hstore hfirst hlocals)

variable {maxLocals : UInt16}

theorem size_unset : (unset maxLocals).slots.size = maxLocals.toNat := Array.size_replicate

theorem size_unknown : (unknown maxLocals).slots.size = maxLocals.toNat := Array.size_replicate

theorem slot_unset (i : Nat) : (unset maxLocals).slot i = .unset := by
  rw [unset, slot_replicate, ite_self]

theorem slot_unknown {i : Nat} (h : i < maxLocals.toNat) : (unknown maxLocals).slot i = .unknown := by
  rw [unknown, slot_replicate, if_pos h]

theorem size_atEntry {isStatic : Bool} {descriptor : MethodDescriptor}
    (h : atEntry maxLocals isStatic descriptor = .ok stored) :
    stored.slots.size = maxLocals.toNat :=
  storeAll_keeps (P := fun locals => locals.slots.size = maxLocals.toNat)
    (fun hstore hsize => (size_store hstore).trans hsize) h size_unset

theorem size_ofFrame {types : List VerificationType} (h : ofFrame maxLocals types = .ok stored) :
    stored.slots.size = maxLocals.toNat :=
  storeFrame_keeps (P := fun locals => locals.slots.size = maxLocals.toNat)
    (fun hstore hsize => (size_store hstore).trans hsize) h size_unset

end ClassFile.Locals
