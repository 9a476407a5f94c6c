import ClassFile.Proofs.Instruction.Tiling
import ClassFile.Proofs.Pool.Lawful

/-! The rules for the operands of instructions. Each of them is checked while an instruction is decoded, by the
decoder of its layout or by the pool that its operands are resolved in, whatever the opcode and its width. So
no instruction of accepted code breaks one. -/

namespace ClassFile

/-- A constant is one that a version lets code load. -/
def Loadable.LoadableIn (version : Version) : Loadable → Prop
  | .classInfo _ => 49 ≤ version.major
  | .methodHandle _ | .methodType _ => 51 ≤ version.major
  | _ => True

/-- Whether a method of an interface, or one of a class, may be invoked in a way. -/
def InvokeKind.AdmitsOwner (version : Version) (ofInterface : Bool) : InvokeKind → Prop
  | .interface => ofInterface = true
  | .virtual => ofInterface = false
  | .special | .static => ofInterface = true → 52 ≤ version.major

/-- The rules for a method that is invoked. -/
structure MethodRef.InvokedBy (version : Version) (kind : InvokeKind) (method : MethodRef) : Prop where
  notClinit : method.name.isClinit = false
  init : method.name.isInit = true → kind = .special ∧ method.descriptor.returnType.isVoid = true
  owner : kind.AdmitsOwner version method.ofInterface

/-- The rules for the operands of an instruction, in a class file with a number of bootstrap methods. -/
def Instruction.LawfulIn (version : Version) (bootstraps : Nat) : Instruction → Prop
  | .ldc value => value.LawfulIn version bootstraps ∧ value.LoadableIn version
  | .invoke kind method => method.InvokedBy version kind
  | .jsr _ | .ret _ => version.major < 51
  | .newObject type => type.isArray = false
  | .newMultiArray type dimensions => 1 ≤ dimensions ∧ dimensions ≤ type.type.dimensions
  | _ => True

/-- The rules for the instruction that an operation is; those that rearrange the stack have no operands. -/
def Operation.LawfulIn (version : Version) (bootstraps : Nat) : Operation → Prop
  | .instruction i => i.LawfulIn version bootstraps
  | .shuffle _ => True

variable {version : Version} {bootstraps : Nat}

theorem Instruction.lawful_of_soleOpcode? {i : Instruction} {opcode : UInt8} (h : i.soleOpcode? = some opcode) :
    i.LawfulIn version bootstraps := by
  cases i with
  | ldc | invoke | jsr | ret | newObject | newMultiArray => cases h
  | _ => trivial

theorem Version.Supports.legacy {opcode : UInt8} (h : version.Supports opcode)
    (hopcode : opcode = 0xa8 ∨ opcode = 0xa9 ∨ opcode = 0xc9) : version.major < 51 := by
  by_contra hmodern
  obtain ⟨hjsr, hret, hlong⟩ := h.2.2 (UInt16.not_lt.mp hmodern)
  rcases hopcode with h | h | h
  · exact hjsr h
  · exact hret h
  · exact hlong h

theorem Profile.legacy_of_not_modern (h : ofVersion version ≠ .modern) : version.major < 51 := by
  by_contra hmodern
  exact h (if_pos (decide_eq_true (UInt16.not_lt.mp hmodern)))

namespace Decoder

variable {site : Site}

theorem gives_ofPool {α : Type} (result : Except Pool.Located α) :
    Gives (fun a => result = .ok a) (ofPool result) := by
  cases result with
  | error located => exact .throw
  | ok a => exact .pure rfl

theorem lawful_poolConstant (hpool : site.pool.Approved site.method.version bootstraps) (index : UInt16)
    (wideValue : Bool) :
    Gives (Instruction.LawfulIn site.method.version bootstraps) (poolConstant site index wideValue) := by
  refine .bind (gives_ofPool _) fun value hvalue => ?_
  have hlawful := hpool.loadableAt hvalue
  have hloads : value.LoadableIn site.method.version → ∀ item : StackItem,
      Gives (Instruction.LawfulIn site.method.version bootstraps) (do
        if wideValue ≠ item.isWide then
          throw (.mismatch (if wideValue then .wideConstant else .narrowConstant) item.subject)
        return .ldc value : Decoder Instruction) := by
    intro hloadable item
    split
    · exact .throw_bind
    · exact .pure ⟨hlawful, hloadable⟩
  dsimp only
  split
  · rename_i tag major hrestricted
    split
    · exact .throw_bind
    · rename_i hallowed
      have hallowed : major ≤ site.method.version.major := by simpa [Version.atLeast] using hallowed
      refine hloads ?_ _
      cases value with
      | classInfo name =>
          cases hrestricted
          exact hallowed
      | methodHandle handle =>
          cases hrestricted
          exact hallowed
      | methodType descriptor =>
          cases hrestricted
          exact hallowed
      | _ => trivial
  · rename_i hfree
    refine hloads ?_ _
    cases value with
    | classInfo name => exact absurd rfl (hfree _ _)
    | methodHandle handle => exact absurd rfl (hfree _ _)
    | methodType descriptor => exact absurd rfl (hfree _ _)
    | _ => trivial

theorem lawful_tableSwitch :
    Gives (Instruction.LawfulIn version bootstraps) (tableSwitch site) := by
  refine .skip fun _ => .skip fun _ => .skip fun _ => .skip fun _ => .skip fun _ => ?_
  dsimp only
  split
  · exact .throw_bind
  · exact .skip fun _ => .skip fun _ => .pure trivial

theorem lawful_lookupSwitch :
    Gives (Instruction.LawfulIn version bootstraps) (lookupSwitch site) := by
  refine .skip fun _ => .skip fun _ => .skip fun _ => .skip fun _ => ?_
  dsimp only
  split
  · exact .throw_bind
  · exact .skip fun _ => .skip fun _ => .pure trivial

theorem gives_interfaceMethod :
    Gives (fun method => method.Regular ∧ method.ofInterface = true) (interfaceMethod site) := by
  refine .skip fun index => .bind (gives_ofPool _) fun method hmethod => .skip fun count => .skip fun zero => ?_
  dsimp only
  split
  · exact .throw_bind
  · split
    · exact .throw_bind
    · exact .pure (Pool.interfaceMethodAt_ok hmethod)

theorem gives_ordinaryMethod (kind : InvokeKind) :
    Gives (fun method => method.Regular ∧
      (method.ofInterface = true → kind ≠ .virtual ∧ 52 ≤ site.method.version.major))
      (ordinaryMethod site kind) := by
  refine .skip fun index => .bind (gives_ofPool _) fun method hmethod => ?_
  dsimp only
  split
  · exact .throw_bind
  · rename_i hallowed
    refine .pure ⟨Pool.methodAt_ok hmethod, fun howner => ?_⟩
    rw [howner, Bool.true_and, Bool.not_eq_true', Bool.not_eq_false, Bool.and_eq_true] at hallowed
    exact ⟨of_decide_eq_true hallowed.1, of_decide_eq_true hallowed.2⟩

theorem lawful_invocation (kind : InvokeKind) :
    Gives (Instruction.LawfulIn site.method.version bootstraps) (invocation site kind) := by
  have hchecked : ∀ method : MethodRef, method.Regular →
      kind.AdmitsOwner site.method.version method.ofInterface →
      Gives (Instruction.LawfulIn site.method.version bootstraps) (do
        if method.name.isInit && kind ≠ .special then malformed site .initInvocation
        return .invoke kind method : Decoder Instruction) := by
    intro method hregular howner
    split
    · exact .throw_bind
    · rename_i hinit
      refine .pure ⟨hregular.notClinit, fun hname => ⟨?_, hregular.initReturns hname⟩, howner⟩
      simpa [hname] using hinit
  unfold invocation
  split
  · rename_i hkind
    subst hkind
    exact .bind gives_interfaceMethod fun method ⟨hregular, howner⟩ => hchecked method hregular howner
  · rename_i hkind
    refine .bind (gives_ordinaryMethod kind) fun method ⟨hregular, howner⟩ => hchecked method hregular ?_
    cases kind with
    | interface => exact absurd rfl hkind
    | virtual => exact Bool.eq_false_iff.mpr fun h => (howner h).1 rfl
    | special => exact fun h => (howner h).2
    | static => exact fun h => (howner h).2

theorem lawful_newArray : Gives (Instruction.LawfulIn version bootstraps) (newArray site) := by
  refine .skip fun code => ?_
  split
  · exact .throw
  · exact .pure trivial

theorem lawful_newMultiArray : Gives (Instruction.LawfulIn version bootstraps) (newMultiArray site) := by
  refine .skip fun type => .skip fun dimensions => ?_
  dsimp only
  split
  · exact .throw_bind
  · rename_i hsome
    split
    · exact .throw_bind
    · rename_i hfew
      exact .pure ⟨UInt8.pos_iff_ne_zero.mpr hsome, UInt8.not_lt.mp hfew⟩

theorem lawful_wide : Gives (Instruction.LawfulIn site.method.version bootstraps) (wide site) := by
  refine .skip fun _ => .skip fun modified => ?_
  dsimp only
  split
  · exact .skip fun _ => .skip fun _ => .pure trivial
  · exact .skip fun _ => .skip fun _ => .pure trivial
  · split
    · exact .throw_bind
    · rename_i hlegacy
      exact .skip fun _ => .skip fun _ => .pure (Profile.legacy_of_not_modern hlegacy)
  · exact .skip fun _ => .skip fun _ => .skip fun _ => .pure trivial
  · exact .throw

theorem lawful_operands (hpool : site.pool.Approved site.method.version bootstraps) {layout : Layout}
    (hlayout : Opcode.layout? site.opcode = some layout)
    (hsupports : site.method.version.Supports site.opcode) :
    Gives (Operation.LawfulIn site.method.version bootstraps) (operands site layout) := by
  have hopcode := (Opcode.standsAt_layout? hlayout).1
  have hdone : ∀ {decoder : Decoder Instruction},
      Gives (Instruction.LawfulIn site.method.version bootstraps) decoder →
        Gives (Operation.LawfulIn site.method.version bootstraps)
          (do return .instruction (← decoder) : Decoder Operation) :=
    fun h => .bind h fun _ hi => .pure hi
  cases layout with
  | plain i => exact .pure (Instruction.lawful_of_soleOpcode? hopcode)
  | shuffle | arithmetic | negate | convert => exact .pure trivial
  | byteConstant | shortConstant | load | store => exact .skip fun _ => .pure trivial
  | increment => exact .skip fun _ => .skip fun _ => .pure trivial
  | poolConstant longIndex wideValue =>
      cases longIndex with
      | false => exact .skip fun index => hdone (lawful_poolConstant hpool index wideValue)
      | true => exact .skip fun index => hdone (lawful_poolConstant hpool index wideValue)
  | ret =>
      refine .skip fun _ => .pure (hsupports.legacy (.inr (.inl ?_)))
      exact (Option.some.inj hopcode).symm
  | jump jump longDistance =>
      have hlawful : ∀ target, (jump.to target).LawfulIn site.method.version bootstraps := by
        intro target
        cases jump with
        | jsr =>
            refine hsupports.legacy ?_
            cases longDistance with
            | false => exact .inl (Option.some.inj hopcode).symm
            | true => exact .inr (.inr (Option.some.inj hopcode).symm)
        | _ => trivial
      cases longDistance with
      | false => exact .skip fun target => .pure (hlawful target)
      | true => exact .skip fun target => .pure (hlawful target)
  | tableSwitch => exact hdone lawful_tableSwitch
  | lookupSwitch => exact hdone lawful_lookupSwitch
  | field use => exact .skip fun index => .skip fun field => .pure (by cases use <;> trivial)
  | invoke kind => exact hdone (lawful_invocation kind)
  | newObject =>
      refine .skip fun type => ?_
      dsimp only
      split
      · exact .throw_bind
      · rename_i harray
        exact .pure (Bool.eq_false_iff.mpr harray)
  | newArray => exact hdone lawful_newArray
  | newReferenceArray | checkCast | instanceOf => exact .skip fun _ => .pure trivial
  | newMultiArray => exact hdone lawful_newMultiArray
  | wide => exact hdone lawful_wide

theorem lawful_instruction (hpool : site.pool.Approved site.method.version bootstraps) {layout : Layout}
    (hlayout : Opcode.layout? site.opcode = some layout)
    (hsupports : site.method.version.Supports site.opcode) (length : InstructionLength) :
    Gives (Operation.LawfulIn site.method.version bootstraps) (instruction site length layout) := by
  have hlawful := lawful_operands hpool hlayout hsupports
  cases length with
  | fixed bytes => exact .skip fun _ => hlawful
  | _ => exact hlawful

end Decoder

/-- What is decoded obeys the rules. -/
theorem Site.lawful_decode (site : Site) (hpool : site.pool.Approved site.method.version bootstraps)
    {bytes : List UInt8} {operation : Operation} {used : Nat} (h : site.decode bytes = .ok (operation, used)) :
    operation.LawfulIn site.method.version bootstraps := by
  unfold decode at h
  dsimp only at h
  split at h
  · cases h
  · rename_i layout hlayout
    obtain ⟨_, hrow, hsupports⟩ := Opcode.layout_ofByte hlayout
    split at h
    · cases h
    · rename_i found cursor hrun
      cases h
      exact (Decoder.lawful_instruction hpool hrow hsupports _).of_ok hrun

/-- The places of a listing obey the rules, as far as they are decoded. -/
theorem Lists.lawful {pool : Pool} {method : MethodContext} {length : UInt16} {pc : Nat} {bytes : List UInt8}
    {places : List ListedPlace} (h : Lists (decodeWithin pool method length) pc bytes places)
    (hpool : pool.Approved method.version bootstraps) :
    ∀ place ∈ places, ∀ decoded, place.decoded = .ok decoded →
      decoded.operation.LawfulIn method.version bootstraps := by
  induction h with
  | done pc => exact fun _ hplace => absurd hplace List.not_mem_nil
  | fault failed =>
      intro place hplace decoded hdecoded
      rw [List.mem_singleton.mp hplace] at hdecoded
      cases hdecoded
  | next decoded behind ih =>
      rw [List.forall_mem_cons]
      refine ⟨?_, ih⟩
      rintro _ ⟨⟩
      exact Site.lawful_decode ⟨_, _, _, _, _⟩ hpool decoded

/-- All instructions of accepted code obey the rules. -/
theorem Accepted.lawful {pool : Pool} {method : MethodContext} {source rest : Cursor} {code : Code}
    {raw : RawCode} {steps : List PassStep} (h : Accepted pool method source rest code raw steps)
    (hpool : pool.Approved method.version bootstraps) :
    ∀ v ∈ code.instructions, v.instruction.LawfulIn method.version bootstraps := by
  intro v hv
  rw [h.instructions, List.mem_map] at hv
  obtain ⟨s, hs, rfl⟩ := hv
  obtain ⟨i, hi⟩ := List.mem_iff_getElem?.mp hs
  obtain ⟨place, hplace, hcomes⟩ := forall₂_getElem? (Premises.verify_comes h.verified) hi
  obtain ⟨decoded, hdecoded, hperform⟩ := hcomes.performed
  have hlawful := (lists_listing pool method raw.bytes).lawful hpool place (List.mem_of_getElem? hplace)
    decoded hdecoded
  have hbecomes := Operation.becomes_of_perform hperform
  cases hoperation : decoded.operation with
  | instruction j =>
      rw [hoperation] at hlawful hbecomes
      obtain rfl := hbecomes
      exact hlawful
  | shuffle op =>
      rw [hoperation] at hbecomes
      obtain ⟨form, hform, _⟩ := hbecomes
      rw [hform]
      trivial

end ClassFile
