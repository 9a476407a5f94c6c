import ClassFile.Proofs.Descriptor.Field
import ClassFile.Proofs.Outcome

/-! Method descriptors: the parameter types between parentheses, then the return type. The slots of the
parameters are only counted when the whole text was read, so that faults of the slots tell that the text is
one of the grammar. -/

namespace ClassFile

inductive ParametersText : Text → List FieldType → Prop
  | nil : ParametersText [] []
  | cons {t rest : Text} {type : FieldType} {types : List FieldType} (first : FieldText t type)
      (others : ParametersText rest types) : ParametersText (t ++ rest) (type :: types)

inductive MethodText : Text → List FieldType → ReturnType → Prop
  | mk {t u : Text} {parameters : List FieldType} {returnType : ReturnType}
      (first : ParametersText t parameters) (last : ReturnText u returnType) :
      MethodText (CodePoint.ofChar '(' :: (t ++ CodePoint.ofChar ')' :: u)) parameters returnType

/-- The slots that a parameter takes: two if it is a `long` or a `double`, otherwise one. -/
def FieldType.slotCount (t : FieldType) : Nat :=
  if t = .primitive .long ∨ t = .primitive .double then 2 else 1

/-- The slots that parameters take, without a bound. -/
def slotCount : List FieldType → Nat
  | [] => 0
  | t :: parameters => t.slotCount + slotCount parameters

theorem FieldType.toNat_size (t : FieldType) : t.size.toNat = t.slotCount := by
  obtain ⟨base, dimensions⟩ := t
  have hpositive : dimensions ≠ 0 → 0 < dimensions := UInt8.pos_iff_ne_zero.mpr
  cases base with
  | primitive kind =>
      by_cases hzero : dimensions = 0
      · subst hzero
        cases kind <;> decide
      · simp [size, category, isArray, hpositive hzero, slotCount, primitive, hzero, Category.size,
          Category.isWide]
  | object name =>
      by_cases hzero : dimensions = 0
      · simp [size, category, isArray, BaseType.category, slotCount, primitive, Category.size,
          Category.isWide]
      · simp [size, category, slotCount, primitive, BaseType.category, Category.size, Category.isWide]

/-- The word that holds a number, if there is one. -/
def word? (n : Nat) : Option UInt16 := if n < UInt16.size then some (.ofNat n) else none

theorem word?_eq_some {n : Nat} {word : UInt16} : word? n = some word ↔ n = word.toNat := by
  unfold word?
  rw [Option.ite_none_right_eq_some, Option.some_inj]
  constructor
  · rintro ⟨hfits, rfl⟩
    exact (UInt16.toNat_ofNat_of_lt' hfits).symm
  · rintro rfl
    exact ⟨word.toNat_lt, UInt16.ofNat_toNat⟩

theorem word?_eq_none {n : Nat} : word? n = none ↔ 65536 ≤ n := by
  rw [← Option.not_isSome_iff_eq_none, word?, ← Nat.not_lt]
  exact not_congr (by simp [UInt16.size])

theorem checkedAdd?_eq (a b : UInt16) : checkedAdd? a b = word? (a.toNat + b.toNat) := by
  rw [checkedAdd?, word?, UInt16.ofNat_add, UInt16.ofNat_toNat, UInt16.ofNat_toNat]

/-- Wherever counting starts, it comes to the exact number, or stops if no word holds it. -/
theorem foldlM_checkedAdd? (parameters : List FieldType) (start : UInt16) :
    parameters.foldlM (fun sum t => checkedAdd? sum t.size) start =
      word? (start.toNat + slotCount parameters) := by
  induction parameters generalizing start with
  | nil => exact (word?_eq_some.mpr rfl).symm
  | cons t parameters ih =>
      rw [List.foldlM_cons, checkedAdd?_eq, t.toNat_size, slotCount, ← Nat.add_assoc]
      cases hsum : word? (start.toNat + t.slotCount) with
      | none => exact (word?_eq_none.mpr (Nat.le_add_right_of_le (word?_eq_none.mp hsum))).symm
      | some sum =>
          rw [word?_eq_some.mp hsum]
          exact ih sum

theorem slotsOf?_eq (parameters : List FieldType) : slotsOf? parameters = word? (slotCount parameters) := by
  rw [slotsOf?, foldlM_checkedAdd?]
  exact congrArg word? (Nat.zero_add _)

theorem slotsOf?_eq_some {parameters : List FieldType} {slots : UInt16} :
    slotsOf? parameters = some slots ↔ slotCount parameters = slots.toNat := by
  rw [slotsOf?_eq, word?_eq_some]

theorem slotsOf?_eq_none {parameters : List FieldType} :
    slotsOf? parameters = none ↔ 65536 ≤ slotCount parameters := by
  rw [slotsOf?_eq, word?_eq_none]

theorem ParametersText.descriptor {t : Text} {types : List FieldType} :
    ParametersText t types ↔ t = types.flatMap FieldType.descriptor := by
  constructor
  · intro h
    induction h with
    | nil => rfl
    | cons first _ ih => rw [List.flatMap_cons, FieldText.descriptor.mp first, ih]
  · rintro rfl
    induction types with
    | nil => exact .nil
    | cons type types ih => exact .cons (FieldText.descriptor.mpr rfl) ih

namespace Descriptor

/-- One step of the loop: a field type is read, and the rest is read after it. -/
theorem readParameters_step {whole t rest : Text} {read : List FieldType} {type : FieldType}
    (hparenthesis : t.startsWith ')' = false) (hfield : readField whole t = .ok (type, rest)) :
    readParameters whole read t = readParameters whole (type :: read) rest := by
  rw [readParameters, hparenthesis, if_neg Bool.false_ne_true]
  split
  · rename_i fault h
    rw [hfield] at h
    cases h
  · rename_i other more h
    rw [hfield] at h
    cases h
    rfl

theorem readParameters_sound {whole : Text} {read : List FieldType} {t rest : Text}
    {types : List FieldType} (h : readParameters whole read t = .ok (types, rest)) :
    ∃ text more, ParametersText text more ∧ types = read.reverse ++ more ∧
      t = text ++ CodePoint.ofChar ')' :: rest := by
  induction read, t using readParameters.induct whole with
  | case1 read t hparenthesis =>
      rw [readParameters, if_pos hparenthesis] at h
      cases h
      exact ⟨[], [], .nil, (List.append_nil _).symm, Text.startsWith_iff.mp hparenthesis⟩
  | case2 read t hparenthesis fault hfield =>
      rw [readParameters, if_neg hparenthesis] at h
      split at h
      · cases h
      · rename_i hok
        rw [hfield] at hok
        cases hok
  | case3 read t hparenthesis type after hfield _ ih =>
      rw [readParameters_step (eq_false_of_ne_true hparenthesis) hfield] at h
      obtain ⟨text, more, htext, htypes, hafter⟩ := ih h
      obtain ⟨front, hfront, ht⟩ := readField_ok.mp hfield
      refine ⟨front ++ text, type :: more, .cons hfront htext, ?_, ?_⟩
      · rw [htypes, List.reverse_cons, List.append_assoc, List.singleton_append]
      · rw [ht, hafter, List.append_assoc]

theorem readParameters_complete {text : Text} {more : List FieldType} (h : ParametersText text more)
    (whole : Text) (read : List FieldType) (rest : Text) :
    readParameters whole read (text ++ CodePoint.ofChar ')' :: rest) =
      .ok (read.reverse ++ more, rest) := by
  induction h generalizing read with
  | nil =>
      rw [List.nil_append, readParameters, if_pos (Text.startsWith_cons.mpr rfl), List.append_nil,
        List.tail_cons]
  | @cons t others type types first _ ih =>
      rw [List.append_assoc]
      have hfield : readField whole (t ++ (others ++ CodePoint.ofChar ')' :: rest)) =
          .ok (type, others ++ CodePoint.ofChar ')' :: rest) := readField_ok.mpr ⟨t, first, rfl⟩
      rw [readParameters_step (first.startsWith (by decide) _) hfield, ih, List.reverse_cons,
        List.append_assoc, List.singleton_append]

end Descriptor

/-- A fault of the slots that parameters take, and not of a text. -/
def DescriptorFault.OfSlots : DescriptorFault → Prop
  | .tooManySlots .. | .slotOverflow => True
  | _ => False

namespace Descriptor

variable {whole t rest : Text}

theorem readBase_fails (first : CodePoint) :
    FailsOnly (fun fault => ¬ fault.OfSlots) (readBase whole first rest) := by
  rintro fault h
  unfold readBase at h
  split at h
  · cases h
  · split at h
    · split at h
      · cases h
        exact id
      · split at h
        · cases h
          exact id
        · cases h
    · cases h
      exact id

theorem readField_fails : FailsOnly (fun fault => ¬ fault.OfSlots) (readField whole t) := by
  rintro fault h
  unfold readField at h
  dsimp only at h
  split at h
  · cases h
    exact id
  · split at h
    · cases h
      exact id
    · split at h
      · rename_i hbase
        cases h
        exact readBase_fails _ _ hbase
      · cases h

theorem readParameters_fails (read : List FieldType) :
    FailsOnly (fun fault => ¬ fault.OfSlots) (readParameters whole read t) := by
  induction read, t using readParameters.induct whole with
  | case1 read t hparenthesis =>
      rw [readParameters, if_pos hparenthesis]
      exact .ok _
  | case2 read t hparenthesis fault hfield =>
      rw [readParameters, if_neg hparenthesis]
      split
      · rename_i hfault
        exact .error (readField_fails _ hfault)
      · rename_i hok
        rw [hfield] at hok
        cases hok
  | case3 read t hparenthesis type after hfield _ ih =>
      rwa [readParameters_step (eq_false_of_ne_true hparenthesis) hfield]

theorem readReturn_fails : FailsOnly (fun fault => ¬ fault.OfSlots) (readReturn whole t) := by
  unfold readReturn
  split
  · exact .ok _
  · split
    · rename_i hfault
      exact .error (readField_fails _ hfault)
    · exact .ok _

theorem expectEnd_fails {α : Type} (read : α × Text) :
    FailsOnly (fun fault => ¬ fault.OfSlots) (expectEnd whole read) := by
  obtain ⟨value, rest⟩ := read
  cases rest with
  | nil => exact .ok value
  | cons c rest => exact .error id

end Descriptor

namespace MethodDescriptor

variable {parameters : List FieldType} {returnType : ReturnType}

theorem slotsOf?_parameters (d : MethodDescriptor) : slotsOf? d.parameters = some d.parameterSlots :=
  (Option.some_get _).symm

theorem toNat_parameterSlots (d : MethodDescriptor) : d.parameterSlots.toNat = slotCount d.parameters :=
  (slotsOf?_eq_some.mp d.slotsOf?_parameters).symm

theorem parameterSlots_le (d : MethodDescriptor) : d.parameterSlots ≤ maxParameterSlots := by
  obtain ⟨slots, hslots, hle⟩ := d.fits
  obtain rfl := Option.some_inj.mp (d.slotsOf?_parameters.symm.trans hslots)
  exact hle

theorem slotCount_le (d : MethodDescriptor) : slotCount d.parameters ≤ 255 := by
  rw [← d.toNat_parameterSlots]
  exact UInt16.le_iff_toNat_le.mp d.parameterSlots_le

theorem ofParameters?_of_none (h : slotsOf? parameters = none) :
    ofParameters? parameters returnType = .error .slotOverflow := by
  unfold ofParameters?
  split
  · rfl
  · rename_i hsome
    cases h.symm.trans hsome

theorem ofParameters?_of_some {slots : UInt16} (h : slotsOf? parameters = some slots) :
    ofParameters? parameters returnType =
      if hle : slots ≤ maxParameterSlots then .ok ⟨parameters, returnType, slots, h, hle⟩
      else .error (.tooManySlots parameters returnType slots) := by
  unfold ofParameters?
  split
  · rename_i hnone
    cases hnone.symm.trans h
  · rename_i slots' hsome
    cases h.symm.trans hsome
    rfl

theorem ofParameters?_ok {d : MethodDescriptor} :
    ofParameters? parameters returnType = .ok d ↔ d.parameters = parameters ∧ d.returnType = returnType := by
  constructor
  · intro h
    cases hslots : slotsOf? parameters with
    | none => cases h.symm.trans (ofParameters?_of_none hslots)
    | some slots =>
        rw [ofParameters?_of_some hslots] at h
        split at h
        · cases h
          exact ⟨rfl, rfl⟩
        · cases h
  · rintro ⟨rfl, rfl⟩
    rw [ofParameters?_of_some d.slotsOf?_parameters, dif_pos d.parameterSlots_le]

/-- What comes of types is decided by their slots. -/
theorem ofParameters?_cases (parameters : List FieldType) (returnType : ReturnType) :
    (65536 ≤ slotCount parameters ∧ ofParameters? parameters returnType = .error .slotOverflow) ∨
    (∃ slots : UInt16, slotCount parameters = slots.toNat ∧ 255 < slotCount parameters ∧
      ofParameters? parameters returnType = .error (.tooManySlots parameters returnType slots)) ∨
    slotCount parameters ≤ 255 ∧ ∃ d, ofParameters? parameters returnType = .ok d := by
  cases hslots : slotsOf? parameters with
  | none => exact .inl ⟨slotsOf?_eq_none.mp hslots, ofParameters?_of_none hslots⟩
  | some slots =>
      have hcount := slotsOf?_eq_some.mp hslots
      have hbound : slots ≤ maxParameterSlots ↔ slotCount parameters ≤ 255 := by
        rw [hcount]
        exact UInt16.le_iff_toNat_le
      rw [ofParameters?_of_some hslots]
      by_cases hle : slots ≤ maxParameterSlots
      · exact .inr (.inr ⟨hbound.mp hle, _, dif_pos hle⟩)
      · exact .inr (.inl ⟨slots, hcount, Nat.lt_of_not_le (mt hbound.mpr hle), dif_neg hle⟩)

theorem ofParameters?_slotOverflow :
    ofParameters? parameters returnType = .error .slotOverflow ↔ 65536 ≤ slotCount parameters := by
  obtain ⟨hover, h⟩ | ⟨slots, hslots, _, h⟩ | ⟨hfits, d, h⟩ := ofParameters?_cases parameters returnType
  · exact iff_of_true h hover
  · have hword := slots.toNat_lt
    exact iff_of_false (by simp [h]) (by omega)
  · exact iff_of_false (by simp [h]) (by omega)

theorem ofParameters?_tooManySlots {types : List FieldType} {type : ReturnType} {slots : UInt16} :
    ofParameters? parameters returnType = .error (.tooManySlots types type slots) ↔
      parameters = types ∧ returnType = type ∧ 255 < slotCount parameters ∧
        slotCount parameters = slots.toNat := by
  have hword := slots.toNat_lt
  obtain ⟨hover, h⟩ | ⟨found, hfound, hmany, h⟩ | ⟨hfits, d, h⟩ := ofParameters?_cases parameters returnType
  · exact iff_of_false (by simp [h]) (by omega)
  · rw [hfound] at hmany ⊢
    simp [h, hmany, UInt16.toNat_inj]
  · exact iff_of_false (by simp [h]) (by omega)

theorem exists_ofParameters? :
    (∃ d, ofParameters? parameters returnType = .ok d) ↔ slotCount parameters ≤ 255 := by
  obtain ⟨hover, h⟩ | ⟨_, _, hmany, h⟩ | ⟨hfits, d, h⟩ := ofParameters?_cases parameters returnType
  · exact iff_of_false (by simp [h]) (by omega)
  · exact iff_of_false (by simp [h]) (by omega)
  · exact iff_of_true ⟨d, h⟩ hfits

theorem parse_of_text {t : Text} (h : MethodText t parameters returnType) :
    parse t = ofParameters? parameters returnType := by
  cases h with
  | @mk text last _ _ first htext =>
      set whole := CodePoint.ofChar '(' :: (text ++ CodePoint.ofChar ')' :: last)
      have hfirst := Descriptor.readParameters_complete first whole [] last
      have hlast : (Descriptor.readReturn whole last >>= Descriptor.expectEnd whole) = .ok returnType :=
        (Descriptor.wholly_ok Descriptor.readReturn_ok).mpr htext
      change (Descriptor.readParameters whole [] (text ++ CodePoint.ofChar ')' :: last) >>= _) = _
      rw [hfirst]
      change (Descriptor.readReturn whole last >>= Descriptor.expectEnd whole >>= _) = _
      rw [hlast]
      rfl

/-- A text is one of the grammar, or it is refused without a look at the slots. -/
theorem parse_cases (t : Text) :
    (∃ parameters returnType, MethodText t parameters returnType) ∨
      ∃ fault : DescriptorFault, parse t = .error fault ∧ ¬ fault.OfSlots := by
  by_cases hparenthesis : t.startsWith '('
  · cases hparameters : Descriptor.readParameters t [] t.tail with
    | error fault =>
        refine .inr ⟨fault, ?_, Descriptor.readParameters_fails _ _ hparameters⟩
        rw [parse, if_pos hparenthesis, hparameters]
        rfl
    | ok read =>
        obtain ⟨parameters, rest⟩ := read
        cases hreturn : Descriptor.readReturn t rest >>= Descriptor.expectEnd t with
        | error fault =>
            refine .inr ⟨fault, ?_, FailsOnly.bind Descriptor.readReturn_fails
              (fun read _ => Descriptor.expectEnd_fails read) _ hreturn⟩
            rw [parse, if_pos hparenthesis, hparameters]
            change (Descriptor.readReturn t rest >>= Descriptor.expectEnd t >>= _) = _
            rw [hreturn]
            rfl
        | ok returnType =>
            obtain ⟨text, more, htext, _, htail⟩ := Descriptor.readParameters_sound hparameters
            have hlast := (Descriptor.wholly_ok Descriptor.readReturn_ok).mp hreturn
            rw [Text.startsWith_iff.mp hparenthesis, htail]
            exact .inl ⟨more, returnType, .mk htext hlast⟩
  · rw [parse, if_neg hparenthesis]
    exact .inr ⟨_, rfl, id⟩

/-- What comes of a text of the grammar, and no fault of a text, comes of its types. -/
theorem parse_eq_iff {t : Text} {result : Except DescriptorFault MethodDescriptor}
    (h : ∀ fault, result = .error fault → fault.OfSlots) :
    parse t = result ↔ ∃ parameters returnType, MethodText t parameters returnType ∧
      ofParameters? parameters returnType = result := by
  constructor
  · intro hparse
    obtain ⟨parameters, returnType, htext⟩ | ⟨fault, hfault, hother⟩ := parse_cases t
    · exact ⟨parameters, returnType, htext, (parse_of_text htext).symm.trans hparse⟩
    · exact absurd (h fault (hparse.symm.trans hfault)) hother
  · rintro ⟨parameters, returnType, htext, hresult⟩
    exact (parse_of_text htext).trans hresult

theorem parse_ok {t : Text} {d : MethodDescriptor} :
    parse t = .ok d ↔ MethodText t d.parameters d.returnType := by
  rw [parse_eq_iff fun _ h => by cases h]
  constructor
  · rintro ⟨_, _, htext, hd⟩
    obtain ⟨rfl, rfl⟩ := ofParameters?_ok.mp hd
    exact htext
  · exact fun htext => ⟨_, _, htext, ofParameters?_ok.mpr ⟨rfl, rfl⟩⟩

/-- A text is written as its descriptor is. -/
theorem descriptor_of_text {t : Text} {d : MethodDescriptor}
    (h : MethodText t d.parameters d.returnType) : t = d.descriptor := by
  unfold descriptor
  generalize d.parameters = parameters at h ⊢
  generalize d.returnType = returnType at h ⊢
  cases h with
  | mk first last => rw [ParametersText.descriptor.mp first, ReturnText.descriptor.mp last]

theorem parse_ok_iff {t : Text} {d : MethodDescriptor} : parse t = .ok d ↔ t = d.descriptor := by
  constructor
  · exact fun h => descriptor_of_text (parse_ok.mp h)
  · rintro rfl
    exact parse_ok.mpr (.mk (ParametersText.descriptor.mpr rfl) (ReturnText.descriptor.mpr rfl))

/-- The parser takes the texts of the grammar whose parameters take at most 255 slots, and gives their types;
the descriptor of what it gives is the text. It refuses the other texts of the grammar for their slots as long
as a sixteen bit word counts them. Where none does, it stops at the overflow instead of refusing the text. -/
theorem parse_grammar (t : Text) :
    (∀ parameters returnType,
      ((∃ d, parse t = .ok d ∧ d.parameters = parameters ∧ d.returnType = returnType) ↔
        MethodText t parameters returnType ∧ slotCount parameters ≤ 255) ∧
      ∀ slots, parse t = .error (.tooManySlots parameters returnType slots) ↔
        MethodText t parameters returnType ∧ 255 < slotCount parameters ∧
          slotCount parameters = slots.toNat) ∧
    (parse t = .error .slotOverflow ↔
      ∃ parameters returnType, MethodText t parameters returnType ∧ 65536 ≤ slotCount parameters) ∧
    ∀ d, parse t = .ok d → d.descriptor = t ∧ parse d.descriptor = .ok d := by
  refine ⟨fun parameters returnType => ⟨⟨?_, ?_⟩, fun slots => ?_⟩, ?_, fun d h => ?_⟩
  · rintro ⟨d, h, rfl, rfl⟩
    exact ⟨parse_ok.mp h, d.slotCount_le⟩
  · rintro ⟨htext, hslots⟩
    obtain ⟨d, hd⟩ := exists_ofParameters?.mpr hslots
    exact ⟨d, (parse_of_text htext).trans hd, ofParameters?_ok.mp hd⟩
  · rw [parse_eq_iff fun _ h => by cases h; trivial]
    constructor
    · rintro ⟨_, _, htext, hmany⟩
      obtain ⟨rfl, rfl, hslots⟩ := ofParameters?_tooManySlots.mp hmany
      exact ⟨htext, hslots⟩
    · exact fun ⟨htext, hslots⟩ => ⟨_, _, htext, ofParameters?_tooManySlots.mpr ⟨rfl, rfl, hslots⟩⟩
  · rw [parse_eq_iff fun _ h => by cases h; trivial]
    simp only [ofParameters?_slotOverflow]
  · rw [← descriptor_of_text (parse_ok.mp h)]
    exact ⟨rfl, h⟩

/-- As few as 32768 parameters of type `long` are not refused: the parser stops at them. -/
theorem parse_longs {n : Nat} (h : 32768 ≤ n) :
    parse (CodePoint.ofChar '(' :: (List.replicate n (CodePoint.ofChar 'J') ++
      CodePoint.ofChar ')' :: [CodePoint.ofChar 'V'])) = .error .slotOverflow := by
  have hcount : slotCount (List.replicate n (.primitive .long)) = 2 * n := by
    clear h
    induction n with
    | zero => rfl
    | succ n ih =>
        rw [List.replicate_succ, slotCount, ih, FieldType.slotCount, if_pos (.inl rfl), Nat.mul_succ,
          Nat.add_comm]
  have htypes : List.replicate n (CodePoint.ofChar 'J') =
      (List.replicate n (FieldType.primitive .long)).flatMap FieldType.descriptor := by
    rw [List.flatMap_replicate]
    exact List.flatten_replicate_singleton.symm
  rw [parse_of_text (.mk (ParametersText.descriptor.mpr htypes) .void),
    ofParameters?_slotOverflow, hcount]
  omega

end MethodDescriptor

end ClassFile
