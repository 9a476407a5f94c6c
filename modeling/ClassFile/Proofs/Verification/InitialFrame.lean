import ClassFile.Code.Frames
import ClassFile.Proofs.Descriptor.ClassName
import ClassFile.Proofs.Verification.Exchange

/-! The local variables that a method starts with, which are described twice: a call stores the receiver and
the parameters one behind the other, and the first stack map frame is a change to a frame that gives their
types. Both come to the same slots, and if there are too few of them, both fail at the same value. -/

namespace ClassFile

namespace Category

/-- The slots that a value of a category fills. -/
def filled (c : Category) : List LocalSlot := if c.isWide then [.value c, .upper] else [.value c]

/-- The slots that values of categories fill, one behind the other. -/
def laidOut (cs : List Category) : List LocalSlot := cs.flatMap filled

theorem length_filled (c : Category) : c.filled.length = c.size.toNat := by
  cases c <;> rfl

theorem laidOut_append (cs ds : List Category) : laidOut (cs ++ ds) = laidOut cs ++ laidOut ds :=
  List.flatMap_append

theorem laidOut_singleton (c : Category) : laidOut [c] = c.filled := List.flatMap_singleton filled c

theorem length_laidOut (cs : List Category) : (laidOut cs).length = slots cs := by
  induction cs with
  | nil => rfl
  | cons c cs ih =>
      rw [laidOut, List.flatMap_cons, ← laidOut, List.length_append, length_filled, ih, slots_cons]

theorem lt_length_filled {c : Category} {i : Nat} (h : (c.filled[i]?.getD .unset).isWide = true) :
    i + 1 < c.filled.length := by
  unfold filled at h ⊢
  by_cases hwide : c.isWide = true
  · rw [if_pos hwide] at h ⊢
    rcases i with _ | _ | i
    · exact Nat.lt_succ_self 1
    · cases h
    · cases h
  · rw [if_neg hwide] at h
    rcases i with _ | i
    · exact absurd h hwide
    · cases h

/-- The first half of a wide value never stands last. -/
theorem lt_length_laidOut {cs : List Category} {i : Nat}
    (h : ((laidOut cs)[i]?.getD .unset).isWide = true) : i + 1 < (laidOut cs).length := by
  induction cs generalizing i with
  | nil => cases h
  | cons c cs ih =>
      rw [laidOut, List.flatMap_cons, ← laidOut] at h ⊢
      rw [List.length_append]
      by_cases hi : i < c.filled.length
      · rw [List.getElem?_append_left hi] at h
        have := lt_length_filled h
        omega
      · rw [List.getElem?_append_right (Nat.le_of_not_lt hi)] at h
        have := ih h
        omega

end Category

/-- The categories of the values that a method starts with: the receiver, unless it is static, and the
parameters. -/
def MethodDescriptor.entryCategories (descriptor : MethodDescriptor) (isStatic : Bool) : List Category :=
  let parameters := descriptor.parameters.map FieldType.category
  if isStatic then parameters else .reference :: parameters

namespace VerificationType

/-- An array type is named by its descriptor, which denotes that type. -/
theorem ofField_array {type : FieldType} (harray : type.isArray = true) :
    ∃ name : ClassName, ofField type = .object name ∧ name.type = type := by
  obtain ⟨name, hname, htype⟩ := ClassName.exists_ofText?_array harray
  exact ⟨name, by rw [ofField, if_pos harray, hname], htype⟩

/-- The type that frames give to values of a type is of the category of these values. -/
theorem frameCategory_ofField (type : FieldType) :
    Locals.frameCategory (ofField type) = some type.category := by
  by_cases harray : type.isArray = true
  · obtain ⟨name, hname, _⟩ := ofField_array harray
    rw [hname, FieldType.category, if_pos harray]
    rfl
  · rw [ofField, if_neg harray, FieldType.category, if_neg harray]
    cases type.base with
    | primitive kind => cases kind <;> rfl
    | object name => rfl

theorem frameCategory_initialLocals (method : MethodContext) :
    method.initialLocals.map Locals.frameCategory =
      (method.descriptor.entryCategories method.isStatic).map some := by
  have hparameters : (method.descriptor.parameters.map ofField).map Locals.frameCategory =
      (method.descriptor.parameters.map FieldType.category).map some := by
    rw [List.map_map, List.map_map]
    exact List.map_congr_left fun type _ => frameCategory_ofField type
  unfold MethodContext.initialLocals MethodDescriptor.entryCategories
  dsimp only
  cases method.isStatic with
  | true => exact hparameters
  | false =>
      rw [if_neg Bool.false_ne_true, if_neg Bool.false_ne_true]
      split
      · exact congrArg (some Category.reference :: ·) hparameters
      · exact congrArg (some Category.reference :: ·) hparameters

end VerificationType

namespace Locals

variable {maxLocals index : UInt16} {locals stored : Locals} {c : Category}

/-- A frame without unused slots stores the values that it describes. -/
theorem storeFrame_eq_storeAll {types : List VerificationType} {categories : List Category}
    (h : types.map frameCategory = categories.map some) :
    locals.storeFrame index types = locals.storeAll index categories := by
  induction types generalizing locals index categories with
  | nil =>
      rw [List.map_nil, eq_comm, List.map_eq_nil_iff] at h
      rw [h, storeFrame, storeAll]
  | cons type types ih =>
      obtain ⟨c, rest, rfl, hc, hrest⟩ := List.map_eq_cons_iff.mp h.symm
      rw [storeFrame, storeAll]
      simp only [← hc, Option.map_some, Option.getD_some]
      by_cases hroom : locals.slots.size < index.toNat + c.size.toNat
      · rw [if_pos hroom, store_of_lt hroom]
        rfl
      · rw [if_neg hroom]
        cases locals.store index c with
        | error fault => rfl
        | ok stored => exact ih hrest.symm

/-- Values of categories fill the first slots, and nothing was stored behind them. -/
structure LaidOut (maxLocals : UInt16) (categories : List Category) (locals : Locals) : Prop where
  size : locals.slots.size = maxLocals.toNat
  slot : ∀ i, locals.slot i = (Category.laidOut categories)[i]?.getD .unset

theorem laidOut_unset (maxLocals : UInt16) : LaidOut maxLocals [] (unset maxLocals) :=
  ⟨size_unset, slot_unset⟩

variable {earlier : List Category}

theorem LaidOut.store (h : LaidOut maxLocals earlier locals)
    (hindex : index.toNat = Category.slots earlier) (hstore : locals.store index c = .ok stored) :
    LaidOut maxLocals (earlier ++ [c]) stored := by
  refine ⟨(size_store hstore).trans h.size, fun i => ?_⟩
  rw [← Category.length_laidOut] at hindex
  have hfilled := c.length_filled
  have hsize := c.toNat_size
  rw [slot_store hstore, Category.laidOut_append, Category.laidOut_singleton]
  by_cases hold : i < index.toNat
  · -- what was stored before is whole, so that no value is cut
    rw [if_neg (by omega), if_neg (by omega), if_neg, if_neg (by omega), h.slot,
      List.getElem?_append_left (hindex ▸ hold)]
    rintro ⟨hnext, hwide⟩
    rw [h.slot] at hwide
    have := Category.lt_length_laidOut hwide
    omega
  have hbehind : ∀ j, index.toNat ≤ j → locals.slot j = .unset := fun j hj => by
    rw [h.slot, List.getElem?_eq_none (hindex ▸ hj), Option.getD_none]
  rw [List.getElem?_append_right (by omega), ← hindex]
  by_cases hfirst : i = index.toNat
  · rw [if_pos hfirst, hfirst, Nat.sub_self]
    cases c <;> rfl
  rw [if_neg hfirst]
  by_cases hsecond : c.isWide = true ∧ i = index.toNat + 1
  · rw [if_pos hsecond, hsecond.2, Nat.add_sub_cancel_left, Category.filled, if_pos hsecond.1]
    rfl
  have hlast : index.toNat + c.size.toNat ≤ i := by
    split at hsize
    · rename_i hwide
      have : i ≠ index.toNat + 1 := fun hi => hsecond ⟨hwide, hi⟩
      omega
    · omega
  rw [if_neg hsecond, if_neg (by omega), if_neg, hbehind i (by omega),
    List.getElem?_eq_none (by omega), Option.getD_none]
  rintro ⟨-, hwide, -⟩
  rw [hbehind (i - 1) (by omega)] at hwide
  cases hwide

/-- Values that are stored one behind the other are laid out so, or the first one that does not fit is at
fault. -/
inductive Laying (maxLocals : UInt16) (categories : List Category) : Except CodeFault Locals → Prop
  | fits {locals : Locals} (room : Category.slots categories ≤ maxLocals.toNat)
      (laidOut : LaidOut maxLocals categories locals) : Laying maxLocals categories (.ok locals)
  | stops {before after : List Category} {c : Category} (split : categories = before ++ c :: after)
      (room : Category.slots before ≤ maxLocals.toNat)
      (full : maxLocals.toNat < Category.slots before + c.size.toNat) :
      Laying maxLocals categories
        (.error (.invalidLocal (Category.slots before + c.size.toNat - 1) maxLocals))

theorem LaidOut.storeAll (h : LaidOut maxLocals earlier locals)
    (hindex : index.toNat = Category.slots earlier) (hroom : Category.slots earlier ≤ maxLocals.toNat)
    (rest : List Category) : Laying maxLocals (earlier ++ rest) (locals.storeAll index rest) := by
  induction rest generalizing earlier locals index with
  | nil =>
      rw [List.append_nil]
      exact .fits hroom h
  | cons c rest ih =>
      by_cases hfits : index.toNat + c.size.toNat ≤ locals.slots.size
      · obtain ⟨stored, hstored⟩ := store_of_le hfits
        rw [h.size, hindex] at hfits
        have hslots : Category.slots (earlier ++ [c]) = Category.slots earlier + c.size.toNat := by
          rw [Category.slots_append, Category.slots_singleton]
        have hnext : (index + c.size).toNat = Category.slots (earlier ++ [c]) := by
          have := maxLocals.toNat_lt
          rw [UInt16.toNat_add, hslots, hindex]
          exact Nat.mod_eq_of_lt (by omega)
        rw [Locals.storeAll, hstored, List.append_cons]
        exact ih (h.store hindex hstored) hnext (hslots ▸ hfits)
      · have hfull := Nat.lt_of_not_le hfits
        have hmax : locals.maxLocals = maxLocals := by
          rw [Locals.maxLocals, h.size, UInt16.ofNat_toNat]
        rw [Locals.storeAll, store_of_lt hfull, hmax, hindex]
        rw [h.size, hindex] at hfull
        exact .stops rfl hroom hfull

theorem laying_atEntry (maxLocals : UInt16) (isStatic : Bool) (descriptor : MethodDescriptor) :
    Laying maxLocals (descriptor.entryCategories isStatic) (atEntry maxLocals isStatic descriptor) :=
  (laidOut_unset maxLocals).storeAll rfl (Nat.zero_le _) (descriptor.entryCategories isStatic)

/-- The frame that a method starts with uses all of its slots, and describes what the method is entered with:
the receiver and the parameters in the first slots, or if there are too few slots, the same fault. -/
theorem ofFrame_initialLocals (method : MethodContext) (maxLocals : UInt16) :
    ofFrame maxLocals method.initialLocals = atEntry maxLocals method.isStatic method.descriptor ∧
      Laying maxLocals (method.descriptor.entryCategories method.isStatic)
        (atEntry maxLocals method.isStatic method.descriptor) ∧
      .top ∉ method.initialLocals := by
  have hcategories := VerificationType.frameCategory_initialLocals method
  refine ⟨storeFrame_eq_storeAll hcategories, laying_atEntry maxLocals _ _, fun htop => ?_⟩
  have hnone := List.mem_map_of_mem (f := frameCategory) htop
  rw [hcategories] at hnone
  obtain ⟨c, _, hc⟩ := List.mem_map.mp hnone
  cases hc

end Locals

end ClassFile
