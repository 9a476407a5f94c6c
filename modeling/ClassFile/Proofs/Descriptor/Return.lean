import ClassFile.Proofs.Descriptor.Field

/-! Field and return descriptors as texts alone. A text is accepted if it is of the grammar, which is told
here without types and without the search for defects in names; what is accepted is written back, and the
arrays of a type are written with one more bracket, as long as that can be counted. -/

namespace ClassFile

/-- The texts of base types: the letter of a primitive type, or a binary name between `L` and `;`. -/
inductive IsBaseDescriptor : Text → Prop
  | primitive {c : Char} (letter : c ∈ ['B', 'C', 'D', 'F', 'I', 'J', 'S', 'Z']) :
      IsBaseDescriptor [CodePoint.ofChar c]
  | object {name : Text} (valid : IsBinaryName name) :
      IsBaseDescriptor (CodePoint.ofChar 'L' :: (name ++ [CodePoint.ofChar ';']))

/-- The texts of field types: at most 255 brackets, then the text of a base type. -/
inductive IsFieldDescriptor : Text → Prop
  | mk {base : Text} (dimensions : Nat) (atMost : dimensions ≤ 255) (valid : IsBaseDescriptor base) :
      IsFieldDescriptor (List.replicate dimensions (CodePoint.ofChar '[') ++ base)

theorem exists_baseText {t : Text} : (∃ base, BaseText t base) ↔ IsBaseDescriptor t := by
  constructor
  · rintro ⟨base, h⟩
    cases h with
    | primitive letter => exact .primitive (List.mem_map_of_mem (f := Prod.fst) letter)
    | object name valid => exact .object valid
  · intro h
    cases h with
    | primitive letter =>
        obtain ⟨⟨_, kind⟩, hkind, rfl⟩ :=
          List.mem_map.mp (show _ ∈ primitiveLetters.map Prod.fst from letter)
        exact ⟨.primitive kind, .primitive hkind⟩
    | @object name valid =>
        exact ⟨.object ⟨name, BinaryName.defect?_eq_none.mpr valid⟩, .object ⟨name, _⟩ valid⟩

theorem exists_fieldText {t : Text} : (∃ type, FieldText t type) ↔ IsFieldDescriptor t := by
  constructor
  · rintro ⟨type, h⟩
    cases h with
    | mk dimensions atMost text => exact .mk dimensions atMost (exists_baseText.mp ⟨_, text⟩)
  · intro h
    cases h with
    | mk dimensions atMost valid =>
        obtain ⟨base, hbase⟩ := exists_baseText.mpr valid
        exact ⟨⟨base, UInt8.ofNat dimensions⟩, .mk dimensions atMost hbase⟩

theorem FieldType.exists_parse {t : Text} :
    (∃ type, FieldType.parse t = .ok type) ↔ IsFieldDescriptor t := by
  simp only [← exists_fieldText, parse_ok, FieldText.descriptor]

theorem ReturnType.exists_parse {t : Text} :
    (∃ type, ReturnType.parse t = .ok type) ↔ IsFieldDescriptor t ∨ t = [CodePoint.ofChar 'V'] := by
  rw [← FieldType.exists_parse]
  constructor
  · rintro ⟨type, h⟩
    rw [parse_ok] at h
    cases type with
    | void => exact .inr h
    | value type => exact .inl ⟨type, FieldType.parse_ok.mpr h⟩
  · rintro (⟨type, h⟩ | rfl)
    · exact ⟨.value type, parse_ok.mpr (FieldType.parse_ok.mp h)⟩
    · exact ⟨.void, parse_ok.mpr rfl⟩

namespace FieldType

variable {type array : FieldType}

theorem arrayOf_ok :
    type.arrayOf = .ok array ↔ type.dimensions ≠ 255 ∧ array = ⟨type.base, type.dimensions + 1⟩ := by
  unfold arrayOf
  split
  · rename_i h
    exact ⟨nofun, fun hne => absurd h hne.1⟩
  · rename_i h
    rw [Except.ok.injEq]
    exact ⟨fun heq => ⟨h, heq.symm⟩, fun heq => heq.2.symm⟩

theorem exists_arrayOf : (∃ array, type.arrayOf = .ok array) ↔ type.dimensions < 255 := by
  have hlast : type.dimensions ≠ 255 ↔ type.dimensions < 255 := by
    have := type.dimensions.toNat_lt
    rw [ne_eq, ← UInt8.toNat_inj, UInt8.lt_iff_toNat_lt]
    show ¬_ = 255 ↔ _ < 255
    omega
  simp only [arrayOf_ok, exists_and_left, exists_eq, and_true, hlast]

/-- The count of dimensions does not wrap. -/
theorem toNat_dimensions_arrayOf (h : type.arrayOf = .ok array) :
    array.dimensions.toNat = type.dimensions.toNat + 1 := by
  have hlast := exists_arrayOf.mp ⟨array, h⟩
  obtain ⟨-, rfl⟩ := arrayOf_ok.mp h
  rw [UInt8.lt_iff_toNat_lt] at hlast
  show (type.dimensions + 1).toNat = _
  rw [UInt8.toNat_add]
  exact Nat.mod_eq_of_lt (Nat.add_lt_add_right hlast 1)

theorem descriptor_arrayOf (h : type.arrayOf = .ok array) :
    array.descriptor = CodePoint.ofChar '[' :: type.descriptor := by
  rw [descriptor, toNat_dimensions_arrayOf h, List.replicate_succ]
  obtain ⟨-, rfl⟩ := arrayOf_ok.mp h
  rfl

theorem component?_arrayOf (h : type.arrayOf = .ok array) : array.component? = some type := by
  have hcount := toNat_dimensions_arrayOf h
  have harray : array.isArray = true := by
    rw [isArray, decide_eq_true_eq, UInt8.lt_iff_toNat_lt, hcount]
    exact Nat.succ_pos _
  obtain ⟨-, rfl⟩ := arrayOf_ok.mp h
  rw [component?, if_pos harray]
  simp

end FieldType

namespace ReturnType

theorem arrayOf_ok {type array : ReturnType} :
    type.arrayOf = .ok array ↔
      ∃ element made, type = .value element ∧ element.arrayOf = .ok made ∧ array = .value made := by
  cases type with
  | void => simp [arrayOf]
  | value element => cases h : element.arrayOf <;> simp [arrayOf, h, Except.map, eq_comm]

/-- The parsers take the texts of the grammar and write them back, every type is parsed from its
descriptor, and every type but `void` has arrays up to 255 dimensions, whose elements are of that type. -/
theorem parse_descriptors :
    (∀ t : Text,
      ((∃ type, FieldType.parse t = .ok type) ↔ IsFieldDescriptor t) ∧
      ((∃ type, ReturnType.parse t = .ok type) ↔ IsFieldDescriptor t ∨ t = [CodePoint.ofChar 'V']) ∧
      (∀ type, FieldType.parse t = .ok type →
        type.descriptor = t ∧ ReturnType.parse t = .ok (.value type)) ∧
      ∀ type, ReturnType.parse t = .ok type → type.descriptor = t) ∧
    ∀ type : ReturnType,
      ReturnType.parse type.descriptor = .ok type ∧
      ((∃ array, type.arrayOf = .ok array) ↔
        ∃ element, type = .value element ∧ element.dimensions < 255) ∧
      ∀ array, type.arrayOf = .ok array →
        array.descriptor = CodePoint.ofChar '[' :: type.descriptor ∧
          array.component?.map .value = some type := by
  refine ⟨fun t => ⟨FieldType.exists_parse, exists_parse, fun type h => ?_, fun type h => ?_⟩,
    fun type => ⟨parse_ok.mpr rfl, ?_, fun array h => ?_⟩⟩
  · have htext := FieldType.parse_ok.mp h
    exact ⟨htext.symm, parse_ok.mpr htext⟩
  · exact (parse_ok.mp h).symm
  · constructor
    · rintro ⟨array, h⟩
      obtain ⟨element, made, rfl, hmade, rfl⟩ := arrayOf_ok.mp h
      exact ⟨element, rfl, FieldType.exists_arrayOf.mp ⟨made, hmade⟩⟩
    · rintro ⟨element, rfl, hdimensions⟩
      obtain ⟨made, hmade⟩ := FieldType.exists_arrayOf.mpr hdimensions
      exact ⟨.value made, arrayOf_ok.mpr ⟨element, made, rfl, hmade, rfl⟩⟩
  · obtain ⟨element, made, rfl, hmade, rfl⟩ := arrayOf_ok.mp h
    exact ⟨FieldType.descriptor_arrayOf hmade,
      congrArg (Option.map value) (FieldType.component?_arrayOf hmade)⟩

end ReturnType

end ClassFile
