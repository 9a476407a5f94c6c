import ClassFile.Descriptor.ClassName
import ClassFile.Proofs.Descriptor.Return

/-! Class names and the types that they denote. Ordinary classes are named by binary names and array classes
by descriptors, and a binary name never begins with a bracket, so that the two kinds of names are told apart
by their first code point and a name can be read off its type. -/

namespace ClassFile

theorem FieldType.startsWith_descriptor (type : FieldType) :
    type.descriptor.startsWith '[' = type.isArray := by
  rw [Bool.eq_iff_iff, isArray, decide_eq_true_eq, UInt8.lt_iff_toNat_lt, descriptor]
  cases h : type.dimensions.toNat with
  | zero =>
      obtain ⟨first, rest, hbase, hfirst⟩ := (BaseText.descriptor.mpr (Eq.refl type.base.descriptor)).begins
      rw [List.replicate_zero, List.nil_append, hbase, Text.startsWith_cons]
      simp [hfirst '[' (by decide)]
  | succ n => simp [List.replicate_succ, Text.startsWith]

theorem IsBinaryName.startsWith {t : Text} (h : IsBinaryName t) : t.startsWith '[' = false := by
  cases t with
  | nil => rfl
  | cons first rest =>
      rw [← Bool.not_eq_true, Text.startsWith_cons]
      rintro rfl
      exact h.not_mem (by decide) List.mem_cons_self

namespace ClassName

variable {t : Text} {c d : ClassName}

theorem ofText?_ok : ofText? t = .ok c ↔ c.text = t := by
  unfold ofText?
  constructor
  · intro h
    split at h
    · cases h
    · cases h
      rfl
  · rintro rfl
    split
    · rename_i fault h
      cases h.symm.trans c.denotes
    · rename_i type h
      cases h.symm.trans c.denotes
      rfl

/-- What a text denotes as a class name is told by its descriptor, or by itself if it is a binary name. -/
theorem denoted_ok {type : FieldType} :
    denoted t = .ok type ↔
      if t.startsWith '[' then t = type.descriptor
      else ∃ name : BinaryName, name.text = t ∧ type = .object name := by
  unfold denoted
  split
  · exact FieldType.parse_ok
  · constructor
    · intro h
      split at h
      · cases h
      · rename_i name hname
        cases h
        exact ⟨name, BinaryName.ofText?_ok.mp hname, rfl⟩
    · rintro ⟨name, rfl, rfl⟩
      rw [BinaryName.ofText?_ok.mpr rfl]

theorem exists_ofText? :
    (∃ c, ofText? t = .ok c) ↔ IsBinaryName t ∨ (t.startsWith '[' = true ∧ IsFieldDescriptor t) := by
  have hdenoted : (∃ c, ofText? t = .ok c) ↔ ∃ type, denoted t = .ok type := by
    constructor
    · rintro ⟨c, hc⟩
      exact ⟨c.type, ofText?_ok.mp hc ▸ c.denotes⟩
    · rintro ⟨type, htype⟩
      exact ⟨⟨t, type, htype⟩, ofText?_ok.mpr rfl⟩
  rw [hdenoted]
  simp only [denoted_ok]
  cases hbracket : t.startsWith '[' with
  | true =>
      have hbinary : ¬IsBinaryName t := fun h => by simp [h.startsWith] at hbracket
      simp only [if_true, hbinary, false_or, true_and, ← FieldType.exists_parse, FieldType.parse_ok]
  | false =>
      simp only [Bool.false_eq_true, if_false, false_and, or_false]
      constructor
      · rintro ⟨_, name, rfl, rfl⟩
        exact name.isBinaryName
      · exact fun h => ⟨_, ⟨t, BinaryName.defect?_eq_none.mpr h⟩, rfl, rfl⟩

theorem descriptor_type (c : ClassName) :
    c.type.descriptor =
      if c.isArray then c.text else CodePoint.ofChar 'L' :: (c.text ++ [CodePoint.ofChar ';']) := by
  have hdenoted := denoted_ok.mp c.denotes
  unfold isArray
  split
  · rename_i hbracket
    rw [if_pos hbracket] at hdenoted
    exact hdenoted.symm
  · rename_i hbracket
    rw [if_neg hbracket] at hdenoted
    obtain ⟨name, hname, htype⟩ := hdenoted
    rw [htype, ← hname]
    rfl

theorem isArray_type (c : ClassName) : c.type.isArray = c.isArray := by
  rw [← FieldType.startsWith_descriptor, descriptor_type]
  split
  · rfl
  · rename_i h
    rw [eq_false_of_ne_true h]
    simp [Text.startsWith]

/-- A name can be read off the type that it denotes. -/
theorem eq_of_type (h : c.type = d.type) : c = d := by
  have harray : c.isArray = d.isArray := by rw [← isArray_type, ← isArray_type, h]
  have hdescriptor := congrArg FieldType.descriptor h
  rw [descriptor_type, descriptor_type, harray] at hdescriptor
  have htext : c.text = d.text := by
    split at hdescriptor
    · exact hdescriptor
    · exact List.append_cancel_right (List.cons.inj hdescriptor).2
  obtain ⟨text, type, denotes⟩ := c
  obtain ⟨text', type', denotes'⟩ := d
  obtain rfl : text = text' := htext
  obtain rfl : type = type' := h
  rfl

/-- An array type is denoted by its descriptor. -/
theorem exists_ofText?_array {type : FieldType} (harray : type.isArray = true) :
    ∃ c, ofText? type.descriptor = .ok c ∧ c.type = type := by
  have hdenoted : denoted type.descriptor = .ok type := by
    rw [denoted_ok, FieldType.startsWith_descriptor, if_pos harray]
  exact ⟨⟨type.descriptor, type, hdenoted⟩, ofText?_ok.mpr rfl, rfl⟩

/-- The texts that are class names, and what they denote: a name that begins with a bracket is parsed as the
descriptor of its type, any other one stands between `L` and `;` in the descriptor of its type. No name
denotes `void` or instances of an array class, no two names denote one type, and every array type is denoted
by its descriptor. -/
theorem names_types :
    (∀ t : Text,
      ((∃ c, ofText? t = .ok c) ↔ IsBinaryName t ∨ (t.startsWith '[' = true ∧ IsFieldDescriptor t)) ∧
      ∀ c, ofText? t = .ok c →
        (t.startsWith '[' = true → FieldType.parse t = .ok c.type) ∧
        c.type.descriptor =
          (if t.startsWith '[' then t else CodePoint.ofChar 'L' :: (t ++ [CodePoint.ofChar ';'])) ∧
        ReturnType.parse c.type.descriptor = .ok (.value c.type) ∧
        ∀ name, c.type.base = .object name → Text.startsWith name.text '[' = false) ∧
    (∀ c d : ClassName, c.type = d.type → c = d) ∧
    ∀ type : FieldType, type.isArray = true → ∃ c, ofText? type.descriptor = .ok c ∧ c.type = type := by
  refine ⟨fun t => ⟨exists_ofText?, fun c hc => ?_⟩, fun c d => eq_of_type, fun type harray => ?_⟩
  · obtain rfl := ofText?_ok.mp hc
    refine ⟨fun hbracket => ?_, descriptor_type c, ReturnType.parse_ok.mpr rfl,
      fun name _ => name.isBinaryName.startsWith⟩
    rw [FieldType.parse_ok, descriptor_type]
    exact (if_pos hbracket).symm
  · exact exists_ofText?_array harray

end ClassName

end ClassFile
