import ClassFile.Proofs.Declaration.Foreseen

/-! The code of an accepted class file is decoded faithfully: every method got its code from one attribute,
read with the constant pool and the version of the file, and the instructions of that code tile its bytes. -/

namespace ClassFile

/-- The bytes are kept if they are asked for. -/
theorem Code.bytes_of_read {pool : Pool} {method : MethodContext} {source rest : Cursor} {code : Code}
    (h : Code.read pool method true source = .ok code rest) : code.bytes ≠ none := by
  obtain ⟨raw, between, _, hcheck⟩ := bind_run.mp h
  cases hchecked : raw.check pool method true with
  | error fault =>
      rw [hchecked] at hcheck
      cases hcheck
  | ok found =>
      rw [hchecked] at hcheck
      cases hcheck
      obtain ⟨_, _, hchecked⟩ := bind_ok.mp hchecked
      obtain ⟨steps, _, hchecked⟩ := bind_ok.mp hchecked
      obtain ⟨_, _, hchecked⟩ := bind_ok.mp hchecked
      cases hchecked
      exact Option.some_ne_none raw.bytes

namespace TypeDecl

/-- The constant pool of a class file. -/
def poolOf? (bytes : List UInt8) : Option Pool :=
  (success? ((do readPool (← readVersion) : SessionReader Pool) ⟨Cursor.ofBytes bytes, []⟩)).map Prod.fst

/-- All code of an accepted class file is read with its pool and its version. -/
theorem code_readWith {keepBytes : Bool} {bytes : List UInt8} {decl : TypeDecl}
    (h : ofBytes keepBytes bytes = .ok decl) :
    ∃ pool, poolOf? bytes = some pool ∧
      ∀ method ∈ decl.methods, ∀ code ∈ method.code, code.ReadWith pool decl.version keepBytes := by
  unfold ofBytes trace at h
  cases hread : read keepBytes ⟨Cursor.ofBytes bytes, []⟩ with
  | error error session =>
      rw [hread] at h
      cases h
  | ok found session =>
      rw [hread] at h
      cases h
      obtain ⟨version, s, hversion, hread⟩ := bind_run.mp hread
      obtain ⟨pool, s', hpool, hread⟩ := bind_run.mp hread
      refine ⟨pool, ?_, ?_⟩
      · rw [poolOf?, success?_eq_some.mpr (bind_run.mpr ⟨version, s, hversion, hpool⟩)]
        rfl
      · exact (finds_members version pool keepBytes).of_ok hread

/-- The instructions of accepted code tile its bytes, from the first one to the last. -/
theorem ofBytes_tiles {bytes : List UInt8} {decl : TypeDecl} (h : ofBytes true bytes = .ok decl) :
    ∃ pool, poolOf? bytes = some pool ∧ ∀ method ∈ decl.methods, ∀ code ∈ method.code,
      ∃ codeBytes, code.bytes = some codeBytes ∧ codeBytes.length = code.codeLength.toNat ∧
        Tiles pool decl.version 0 code.instructions codeBytes := by
  obtain ⟨pool, hpool, hcode⟩ := code_readWith h
  refine ⟨pool, hpool, fun method hmethod code hmem => ?_⟩
  obtain ⟨context, source, rest, hversion, hread⟩ := hcode method hmethod code hmem
  obtain ⟨raw, steps, haccepted⟩ := Code.read_ok hread
  have htiles := haccepted.tiles
  rw [hversion] at htiles
  obtain ⟨keepBytes, hresult⟩ := haccepted.result
  have hkept := Code.bytes_of_read hread
  cases keepBytes with
  | false => exact absurd (congrArg Code.bytes hresult) hkept
  | true =>
      refine ⟨raw.bytes, congrArg Code.bytes hresult, ?_, htiles⟩
      rw [congrArg Code.codeLength hresult]
      exact (toNat_length (RawCode.read_length haccepted.read).2).symm

/-- A constant, a switch over one key with padding, and a return. -/
def switchingCode : List UInt8 :=
  [0x04, 0xaa, 0, 0, 0, 0, 0, 19, 0, 0, 0, 0, 0, 0, 0, 0, 0, 0, 0, 19, 0xb1]

theorem switchingClass_tiles :
    ∃ decl pool, ofBytes true (sampleClass switchingCode) = .ok decl ∧ decl.instructionCount = 3 ∧
      poolOf? (sampleClass switchingCode) = some pool ∧ ∀ method ∈ decl.methods, ∀ code ∈ method.code,
        ∃ codeBytes, code.bytes = some codeBytes ∧ codeBytes.length = code.codeLength.toNat ∧
          Tiles pool decl.version 0 code.instructions codeBytes := by
  have hcount : (match ofBytes true (sampleClass switchingCode) with
      | .ok decl => some decl.instructionCount
      | .error _ => none) = some 3 := by
    decide +kernel
  cases hrun : ofBytes true (sampleClass switchingCode) with
  | error error =>
      rw [hrun] at hcount
      cases hcount
  | ok decl =>
      rw [hrun] at hcount
      obtain ⟨pool, htiles⟩ := ofBytes_tiles hrun
      exact ⟨decl, pool, rfl, Option.some.inj hcount, htiles⟩

end TypeDecl

end ClassFile
