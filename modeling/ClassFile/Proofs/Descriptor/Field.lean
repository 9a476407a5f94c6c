import Mathlib.Data.List.TakeWhile
import ClassFile.Descriptor.Parser
import ClassFile.Proofs.Success
import ClassFile.Proofs.Descriptor.Names

/-! The grammar of field and return descriptors, and that the readers take exactly the texts of the
grammar off the front of what they read. A class name holds no semicolon and a base type begins with no
bracket, so where a descriptor ends never depends on what follows it. -/

namespace ClassFile

/-- The letters of the primitive types. -/
def primitiveLetters : List (Char × Primitive) :=
  [('B', .byte), ('C', .char), ('D', .double), ('F', .float), ('I', .int), ('J', .long), ('S', .short),
    ('Z', .boolean)]

/-- A text writes a base type: a letter, or a binary name between `L` and `;`. -/
inductive BaseText : Text → BaseType → Prop
  | primitive {c : Char} {kind : Primitive} (letter : (c, kind) ∈ primitiveLetters) :
      BaseText [CodePoint.ofChar c] (.primitive kind)
  | object (name : BinaryName) (valid : IsBinaryName name.text) :
      BaseText (CodePoint.ofChar 'L' :: (name.text ++ [CodePoint.ofChar ';'])) (.object name)

/-- A text writes a field type: at most 255 brackets, then a base type. -/
inductive FieldText : Text → FieldType → Prop
  | mk {t : Text} {base : BaseType} (dimensions : Nat) (atMost : dimensions ≤ 255) (text : BaseText t base) :
      FieldText (List.replicate dimensions (CodePoint.ofChar '[') ++ t) ⟨base, UInt8.ofNat dimensions⟩

inductive ReturnText : Text → ReturnType → Prop
  | void : ReturnText [CodePoint.ofChar 'V'] .void
  | value {t : Text} {type : FieldType} (text : FieldText t type) : ReturnText t (.value type)

theorem mem_primitiveLetters {c : Char} {kind : Primitive} :
    (c, kind) ∈ primitiveLetters ↔ c = kind.letter := by
  cases kind <;> simp [primitiveLetters, Primitive.letter]

theorem Primitive.ofLetter?_letter (kind : Primitive) :
    ofLetter? (CodePoint.ofChar kind.letter) = some kind := by
  cases kind <;> decide

theorem Primitive.eq_letter {c : CodePoint} {kind : Primitive} (h : ofLetter? c = some kind) :
    c = CodePoint.ofChar kind.letter := by
  unfold ofLetter? at h
  simpa using List.find?_some h

theorem BaseText.descriptor {t : Text} {base : BaseType} : BaseText t base ↔ t = base.descriptor := by
  constructor
  · intro h
    cases h with
    | primitive letter => rw [mem_primitiveLetters.mp letter, BaseType.descriptor]
    | object name valid => rfl
  · rintro rfl
    cases base with
    | primitive kind => exact .primitive (mem_primitiveLetters.mpr rfl)
    | object name => exact .object name name.isBinaryName

theorem FieldText.descriptor {t : Text} {type : FieldType} : FieldText t type ↔ t = type.descriptor := by
  constructor
  · intro h
    cases h with
    | mk n atMost text =>
        have hn : (UInt8.ofNat n).toNat = n := Nat.mod_eq_of_lt (Nat.lt_succ_of_le atMost)
        rw [FieldType.descriptor, hn, BaseText.descriptor.mp text]
  · rintro rfl
    have hn := type.dimensions.toNat_lt
    have hbase := BaseText.descriptor.mpr (Eq.refl type.base.descriptor)
    have h := FieldText.mk type.dimensions.toNat (by omega) hbase
    rwa [UInt8.ofNat_toNat] at h

theorem ReturnText.descriptor {t : Text} {type : ReturnType} :
    ReturnText t type ↔ t = type.descriptor := by
  constructor
  · intro h
    cases h with
    | void => rfl
    | value text => exact FieldText.descriptor.mp text
  · rintro rfl
    cases type with
    | void => exact .void
    | value type => exact .value (FieldText.descriptor.mpr rfl)

/-- The code points that a descriptor of a field can begin with; those that end or stand for something
else are not among them. -/
theorem BaseText.begins {t : Text} {base : BaseType} (h : BaseText t base) :
    ∃ first rest, t = first :: rest ∧
      ∀ c ∈ ['[', ')', 'V'], first ≠ CodePoint.ofChar c := by
  cases h with
  | @primitive c kind letter =>
      refine ⟨_, [], rfl, ?_⟩
      rw [mem_primitiveLetters.mp letter]
      cases kind <;> simp [Primitive.letter]
  | object name valid => exact ⟨_, _, rfl, by simp⟩

theorem FieldText.begins {t : Text} {type : FieldType} (h : FieldText t type) :
    ∃ first rest, t = first :: rest ∧ ∀ c ∈ [')', 'V'], first ≠ CodePoint.ofChar c := by
  cases h with
  | mk n atMost text =>
      cases n with
      | zero =>
          obtain ⟨first, rest, ht, hfirst⟩ := text.begins
          exact ⟨first, rest, ht, fun c hc => hfirst c (List.mem_cons_of_mem '[' hc)⟩
      | succ n => exact ⟨_, _, rfl, by simp⟩

theorem Text.startsWith_cons {first : CodePoint} {rest : Text} {c : Char} :
    Text.startsWith (first :: rest) c = true ↔ first = CodePoint.ofChar c := by
  simp [Text.startsWith]

theorem Text.startsWith_iff {t : Text} {c : Char} :
    t.startsWith c = true ↔ t = CodePoint.ofChar c :: t.tail := by
  cases t with
  | nil => simp [Text.startsWith]
  | cons first rest => simp [Text.startsWith]

/-- What is not a field descriptor's begin is not found at the front of one. -/
theorem FieldText.startsWith {t : Text} {type : FieldType} (h : FieldText t type) {c : Char}
    (hc : c ∈ [')', 'V']) (rest : Text) : Text.startsWith (t ++ rest) c = false := by
  obtain ⟨first, more, rfl, hfirst⟩ := h.begins
  rw [← Bool.not_eq_true, List.cons_append, Text.startsWith_cons]
  exact hfirst c hc

namespace Descriptor

theorem takeWhile_append {p : CodePoint → Bool} {t : Text} {c : CodePoint} (rest : Text)
    (ht : ∀ d ∈ t, p d = true) (hc : p c = false) :
    (t ++ c :: rest).takeWhile p = t ∧ (t ++ c :: rest).dropWhile p = c :: rest := by
  have hnot : ¬ p c = true := by rw [hc]; decide
  rw [List.takeWhile_append_of_pos ht, List.takeWhile_cons_of_neg hnot, List.append_nil,
    List.dropWhile_append_of_pos ht, List.dropWhile_cons_of_neg hnot]
  exact ⟨rfl, rfl⟩

theorem readBase_complete {t : Text} {base : BaseType} (h : BaseText t base) (whole after : Text) :
    ∃ first rest, t ++ after = first :: rest ∧ readBase whole first rest = .ok (base, after) := by
  cases h with
  | @primitive c kind letter =>
      refine ⟨CodePoint.ofChar c, after, rfl, ?_⟩
      rw [mem_primitiveLetters.mp letter, readBase, Primitive.ofLetter?_letter]
  | object name valid =>
      have hname : ∀ d ∈ name.text, decide (d ≠ CodePoint.ofChar ';') = true := by
        intro d hd
        refine decide_eq_true ?_
        rintro rfl
        exact valid.not_mem (by decide) hd
      obtain ⟨htake, hdrop⟩ := takeWhile_append after hname
        (show decide (CodePoint.ofChar ';' ≠ CodePoint.ofChar ';') = false by decide)
      have hnone : Primitive.ofLetter? (CodePoint.ofChar 'L') = none := by decide
      refine ⟨CodePoint.ofChar 'L', name.text ++ CodePoint.ofChar ';' :: after, by simp, ?_⟩
      simp only [readBase, hnone, hdrop, htake, BinaryName.ofText?_ok.mpr rfl, if_true]

/-- What is dropped and kept of a text stands together in it again, with the first code point kept. -/
theorem eq_append_of_dropWhile {p : CodePoint → Bool} {t rest : Text} {c : CodePoint}
    (h : t.dropWhile p = c :: rest) : t = t.takeWhile p ++ c :: rest ∧ p c = false := by
  constructor
  · rw [← h, List.takeWhile_append_dropWhile]
  · have hhead := List.head?_dropWhile_not p t
    rwa [h] at hhead

theorem readBase_sound {whole rest after : Text} {first : CodePoint} {base : BaseType}
    (h : readBase whole first rest = .ok (base, after)) :
    ∃ t, BaseText t base ∧ first :: rest = t ++ after := by
  unfold readBase at h
  split at h
  · rename_i kind hkind
    cases h
    refine ⟨[first], ?_, rfl⟩
    rw [Primitive.eq_letter hkind]
    exact .primitive (mem_primitiveLetters.mpr rfl)
  · split at h
    · rename_i hfirst
      split at h
      · cases h
      · rename_i c more hdrop
        split at h
        · cases h
        · rename_i name hname
          cases h
          obtain ⟨hrest, hc⟩ := eq_append_of_dropWhile hdrop
          have hc : c = CodePoint.ofChar ';' := by simpa using hc
          rw [← BinaryName.ofText?_ok.mp hname, hc] at hrest
          refine ⟨_, .object name name.isBinaryName, ?_⟩
          rw [hfirst, hrest, List.cons_append, List.append_assoc, List.singleton_append]
    · cases h

theorem readField_ok {whole t rest : Text} {type : FieldType} :
    readField whole t = .ok (type, rest) ↔ ∃ text, FieldText text type ∧ t = text ++ rest := by
  constructor
  · intro h
    unfold readField at h
    simp only at h
    split at h
    · cases h
    · rename_i hdimensions
      split at h
      · cases h
      · rename_i first more hdrop
        split at h
        · cases h
        · rename_i base after hbase
          cases h
          obtain ⟨text, htext, hmore⟩ := readBase_sound hbase
          obtain ⟨ht, -⟩ := eq_append_of_dropWhile hdrop
          have hbrackets : t.takeWhile (· = CodePoint.ofChar '[') =
              List.replicate (t.takeWhile (· = CodePoint.ofChar '[')).length (CodePoint.ofChar '[') :=
            List.eq_replicate_of_mem fun c hc => by simpa using List.mem_takeWhile_imp hc
          refine ⟨_, .mk _ (Nat.le_of_not_lt hdimensions) htext, ?_⟩
          rw [← hbrackets, List.append_assoc, ← hmore]
          exact ht
  · rintro ⟨text, htext, rfl⟩
    cases htext with
    | @mk baseText base n atMost htext =>
        obtain ⟨first, more, hmore, hbase⟩ := readBase_complete htext whole rest
        have hfirst : first ≠ CodePoint.ofChar '[' := by
          obtain ⟨begin, after, rfl, hbegin⟩ := htext.begins
          rw [List.cons_append] at hmore
          exact List.head_eq_of_cons_eq hmore ▸ hbegin '[' (by decide)
        have hbrackets : ∀ d ∈ List.replicate n (CodePoint.ofChar '['),
            decide (d = CodePoint.ofChar '[') = true :=
          fun d hd => decide_eq_true (List.eq_of_mem_replicate hd)
        obtain ⟨htake, hdrop⟩ := takeWhile_append more hbrackets (decide_eq_false hfirst)
        rw [List.append_assoc, hmore]
        simp only [readField, htake, hdrop, hbase, List.length_replicate, if_neg (Nat.not_lt.mpr atMost)]

theorem readReturn_ok {whole t rest : Text} {type : ReturnType} :
    readReturn whole t = .ok (type, rest) ↔ ∃ text, ReturnText text type ∧ t = text ++ rest := by
  unfold readReturn
  constructor
  · intro h
    split at h
    · rename_i hvoid
      cases h
      exact ⟨_, .void, Text.startsWith_iff.mp hvoid⟩
    · split at h
      · cases h
      · rename_i type after hfield
        cases h
        obtain ⟨text, htext, ht⟩ := readField_ok.mp hfield
        exact ⟨text, .value htext, ht⟩
  · rintro ⟨text, htext, rfl⟩
    cases htext with
    | void => rfl
    | value htext =>
        rw [htext.startsWith (by decide), if_neg Bool.false_ne_true, readField_ok.mpr ⟨text, htext, rfl⟩]

theorem expectEnd_ok {α : Type} {whole : Text} {read : α × Text} {value : α} :
    expectEnd whole read = .ok value ↔ read = (value, []) := by
  obtain ⟨a, rest⟩ := read
  cases rest with
  | nil => simp [expectEnd]
  | cons c rest => simp [expectEnd]

/-- What a reader takes off the front of a text is all of it, if nothing may be left over. -/
theorem wholly_ok {α : Type} {whole t : Text} {read : Except DescriptorFault (α × Text)}
    {Spells : Text → α → Prop}
    (h : ∀ {value rest}, read = .ok (value, rest) ↔ ∃ text, Spells text value ∧ t = text ++ rest) {value : α} :
    (read >>= expectEnd whole) = .ok value ↔ Spells t value := by
  simp only [bind_ok, expectEnd_ok, exists_eq_right, h, List.append_nil]
  constructor
  · rintro ⟨text, htext, rfl⟩
    exact htext
  · exact fun htext => ⟨t, htext, rfl⟩

end Descriptor

/-- A type is parsed from exactly one text, its descriptor. -/
theorem FieldType.parse_ok {t : Text} {type : FieldType} :
    FieldType.parse t = .ok type ↔ t = type.descriptor :=
  (Descriptor.wholly_ok Descriptor.readField_ok).trans FieldText.descriptor

/-- The same holds of return types. -/
theorem ReturnType.parse_ok {t : Text} {type : ReturnType} :
    ReturnType.parse t = .ok type ↔ t = type.descriptor :=
  (Descriptor.wholly_ok Descriptor.readReturn_ok).trans ReturnText.descriptor

end ClassFile
