import ClassFile.Name

/-! Binary names as the class file format describes them: segments with slashes between them, where a
segment is not empty and holds none of the four reserved code points. The search for a defect finds
none in exactly these texts. -/

namespace ClassFile

/-- One segment of a binary name. -/
def IsSegment (t : Text) : Prop :=
  t ≠ [] ∧ ∀ c ∈ t, c ∉ ['.', ';', '[', '/'].map CodePoint.ofChar

inductive IsBinaryName : Text → Prop
  | last {t : Text} (segment : IsSegment t) : IsBinaryName t
  | more {t rest : Text} (segment : IsSegment t) (others : IsBinaryName rest) :
      IsBinaryName (t ++ CodePoint.ofChar '/' :: rest)

theorem CodePoint.isReserved_eq_false {c : CodePoint} :
    c.isReserved = false ↔ c ∉ ['.', ';', '[', '/'].map CodePoint.ofChar := by
  simp [CodePoint.isReserved, and_assoc]

@[simp] theorem CodePoint.ofChar_inj {c d : Char} : ofChar c = ofChar d ↔ c = d := by
  constructor
  · intro h
    exact Char.ext (UInt32.toNat_inj.mp (congrArg value h))
  · rintro rfl
    rfl

theorem CodePoint.isReserved_slash : (CodePoint.ofChar '/').isReserved = true := by decide

namespace BinaryName

theorem defectFrom?_slash (inSegment : Bool) (rest : Text) :
    defectFrom? inSegment (CodePoint.ofChar '/' :: rest) =
      if inSegment then defectFrom? false rest else some .emptySegment := by
  rw [defectFrom?, if_pos rfl]

theorem defectFrom?_unreserved {c : CodePoint} (h : c.isReserved = false) (inSegment : Bool)
    (rest : Text) : defectFrom? inSegment (c :: rest) = defectFrom? true rest := by
  have hslash : c ≠ CodePoint.ofChar '/' := by
    rintro rfl
    rw [CodePoint.isReserved_slash] at h
    cases h
  rw [defectFrom?, if_neg hslash, h, if_neg (by decide)]

theorem defectFrom?_reserved {c : CodePoint} (h : c.isReserved = true)
    (hslash : c ≠ CodePoint.ofChar '/') (inSegment : Bool) (rest : Text) :
    defectFrom? inSegment (c :: rest) = some .reservedInSegment := by
  rw [defectFrom?, if_neg hslash, h, if_pos rfl]

theorem defectFrom?_segment {t : Text} (ht : IsSegment t) (inSegment : Bool) (rest : Text) :
    defectFrom? inSegment (t ++ rest) = defectFrom? true rest := by
  obtain ⟨hne, hall⟩ := ht
  induction t generalizing inSegment with
  | nil => exact absurd rfl hne
  | cons c t ih =>
      have hc := CodePoint.isReserved_eq_false.mpr (hall c List.mem_cons_self)
      rw [List.cons_append, defectFrom?_unreserved hc]
      cases t with
      | nil => rfl
      | cons d t =>
          exact ih true (List.cons_ne_nil d t) fun e he => hall e (List.mem_cons_of_mem c he)

theorem defect?_of_isBinaryName {t : Text} (h : IsBinaryName t) : defect? t = none := by
  unfold defect?
  induction h with
  | @last t segment =>
      have := defectFrom?_segment segment false []
      rwa [List.append_nil] at this
  | more segment _ ih => rw [defectFrom?_segment segment, defectFrom?_slash, if_pos rfl, ih]

/-- What was read of the current segment goes in front of what is still to read. -/
theorem isBinaryName_of_defectFrom? {t : Text} :
    (defectFrom? false t = none → IsBinaryName t) ∧
      (defectFrom? true t = none → ∀ s, IsSegment s → IsBinaryName (s ++ t)) := by
  induction t with
  | nil =>
      constructor
      · intro h
        cases h
      · intro _ s hs
        rw [List.append_nil]
        exact .last hs
  | cons c t ih =>
      by_cases hslash : c = CodePoint.ofChar '/'
      · subst hslash
        constructor
        · intro h
          rw [defectFrom?_slash] at h
          cases h
        · intro h s hs
          rw [defectFrom?_slash, if_pos rfl] at h
          exact .more hs (ih.1 h)
      · cases hc : c.isReserved with
        | true =>
            constructor
            · intro h
              rw [defectFrom?_reserved hc hslash] at h
              cases h
            · intro h
              rw [defectFrom?_reserved hc hslash] at h
              cases h
        | false =>
            have hfree := CodePoint.isReserved_eq_false.mp hc
            constructor
            · intro h
              rw [defectFrom?_unreserved hc] at h
              refine ih.2 h [c] ⟨List.cons_ne_nil c [], fun d hd => ?_⟩
              rwa [List.mem_singleton.mp hd]
            · intro h s hs
              rw [defectFrom?_unreserved hc] at h
              rw [List.append_cons]
              refine ih.2 h (s ++ [c]) ⟨by simp, fun d hd => ?_⟩
              rcases List.mem_append.mp hd with hd | hd
              · exact hs.2 d hd
              · rwa [List.mem_singleton.mp hd]

theorem defect?_eq_none {t : Text} : defect? t = none ↔ IsBinaryName t :=
  ⟨isBinaryName_of_defectFrom?.1, defect?_of_isBinaryName⟩

theorem ofText?_ok {t : Text} {name : BinaryName} : ofText? t = .ok name ↔ name.text = t := by
  unfold ofText?
  constructor
  · intro h
    split at h
    · cases h
      rfl
    · cases h
  · rintro rfl
    split
    · rfl
    · rename_i defect h
      rw [name.valid] at h
      cases h

theorem isBinaryName (name : BinaryName) : IsBinaryName name.text := defect?_eq_none.mp name.valid

end BinaryName

theorem FieldName.ofText?_ok {t : Text} {name : FieldName} : FieldName.ofText? t = .ok name ↔ name.text = t := by
  unfold FieldName.ofText?
  constructor
  · intro h
    split at h
    · cases h
      rfl
    · cases h
  · rintro rfl
    split
    · rfl
    · rename_i hdefect
      exact nomatch hdefect.symm.trans name.valid

theorem MethodName.ofText?_ok {t : Text} {name : MethodName} :
    MethodName.ofText? t = .ok name ↔ name.text = t := by
  unfold MethodName.ofText?
  constructor
  · intro h
    split at h
    · cases h
      rfl
    · cases h
  · rintro rfl
    split
    · rfl
    · rename_i hdefect
      exact nomatch hdefect.symm.trans name.valid

/-- A binary name holds no code point that could end it or begin an array. -/
theorem IsBinaryName.not_mem {t : Text} (h : IsBinaryName t) {c : Char}
    (hc : c ∈ ['.', ';', '[']) : CodePoint.ofChar c ∉ t := by
  have hslash : ∀ d ∈ ['.', ';', '['], CodePoint.ofChar d ≠ CodePoint.ofChar '/' := by simp
  have hreserved : CodePoint.ofChar c ∈ ['.', ';', '[', '/'].map CodePoint.ofChar :=
    List.mem_map_of_mem (List.mem_append_left ['/'] hc)
  induction h with
  | last segment => exact fun hmem => segment.2 _ hmem hreserved
  | more segment _ ih =>
      intro hmem
      rcases List.mem_append.mp hmem with hmem | hmem
      · exact segment.2 _ hmem hreserved
      · rcases List.mem_cons.mp hmem with hmem | hmem
        · exact hslash c hc hmem
        · exact ih hmem

end ClassFile
