import ClassFile.Code.Reading
import ClassFile.Proofs.Listing
import ClassFile.Proofs.Verification.Reached

/-! Code that was accepted: what it was read from, the steps in which it was verified, and how the pass came
to each of them. -/

namespace ClassFile

/-- How code was accepted: what was read, and the steps that verified its instructions, in the order of the
code. -/
structure Accepted (pool : Pool) (method : MethodContext) (source rest : Cursor) (code : Code)
    (raw : RawCode) (steps : List PassStep) : Prop where
  read : RawCode.read pool method source = .ok raw rest
  verified : raw.verify pool method = .ok steps
  result : ∃ keepBytes, code = raw.withSteps keepBytes steps
  offsets : (Boundaries.ofInstructions code.codeLength code.instructions).check code = .ok ()

variable {pool : Pool} {method : MethodContext} {keepBytes : Bool} {source rest : Cursor} {code : Code}
  {raw : RawCode} {steps : List PassStep} {s s' : PassStep}

theorem Code.read_ok (h : Code.read pool method keepBytes source = .ok code rest) :
    ∃ raw steps, Accepted pool method source rest code raw steps := by
  unfold Code.read at h
  obtain ⟨raw, between, hread, hcheck⟩ := bind_run.mp h
  cases hchecked : raw.check pool method keepBytes with
  | error fault =>
      rw [hchecked] at hcheck
      cases hcheck
  | ok found =>
    rw [hchecked] at hcheck
    cases hcheck
    unfold RawCode.check at hchecked
    obtain ⟨_, _, hchecked⟩ := bind_ok.mp hchecked
    obtain ⟨steps, hsteps, hchecked⟩ := bind_ok.mp hchecked
    obtain ⟨_, hoffsets, hchecked⟩ := bind_ok.mp hchecked
    cases hchecked
    exact ⟨raw, steps, hread, hsteps, ⟨keepBytes, rfl⟩, hoffsets⟩

/-- The steps in which code that is read would be verified. -/
def stepsOf? (pool : Pool) (method : MethodContext) (source : Cursor) : Option (List PassStep) :=
  (success? (RawCode.read pool method source)).bind fun read =>
    (read.1.verify pool method).toOption

theorem Accepted.stepsOf? (h : Accepted pool method source rest code raw steps) :
    stepsOf? pool method source = some steps := by
  rw [ClassFile.stepsOf?, success?_eq_some.mpr h.read, Option.bind_some, h.verified]
  rfl

/-- A static method `run` without parameters that returns nothing. -/
def sampleMethod : MethodContext where
  version := ⟨52, 0⟩
  owner := .ofBinary ⟨.ofString "a/B", by decide⟩
  name := ⟨.ofString "run", by decide⟩
  descriptor := ⟨[], .void, by decide⟩
  isStatic := true
  strict := false

/-- A pool with the name of the attribute that holds frames. -/
def samplePool : Pool := ⟨#[.vacant, .entry (.utf8 (.ofString "StackMapTable"))]⟩

theorem Cursor.length_splitFrom? {α : Type} {found items front behind : List α} {n : Nat}
    (h : Cursor.splitFrom? found n items = some (front, behind)) :
    front.length = found.length + n := by
  induction n generalizing found items with
  | zero =>
      rw [splitFrom?, Option.some.injEq, Prod.mk.injEq] at h
      rw [← h.1, List.length_reverse, Nat.add_zero]
  | succ n ih =>
      cases items with
      | nil => cases h
      | cons item items =>
          rw [ih h, List.length_cons]
          omega

theorem Reader.length_bytes {ε : Type} [Truncatable ε] {n : Nat} {found : List UInt8}
    {source rest : Cursor} (h : (Reader.bytes n : Reader ε (List UInt8)) source = .ok found rest) :
    found.length = n := by
  unfold Reader.bytes Cursor.next? at h
  split at h
  · cases h
  · rename_i hnext
    cases h
    split at hnext
    · cases hnext
    · rename_i hsplit
      cases hnext
      exact (Cursor.length_splitFrom? hsplit).trans (Nat.zero_add n)

/-- There is code, and its offsets fit into sixteen bits. -/
theorem RawCode.read_length (h : RawCode.read pool method source = .ok raw rest) :
    raw.bytes ≠ [] ∧ raw.bytes.length ≤ 0xffff := by
  unfold RawCode.read at h
  obtain ⟨maxStack, _, _, h⟩ := bind_run.mp h
  obtain ⟨maxLocals, _, _, h⟩ := bind_run.mp h
  obtain ⟨length, _, _, h⟩ := bind_run.mp h
  split at h
  · cases h
  · rename_i hlength
    obtain ⟨bytes, _, hbytes, h⟩ := bind_run.mp h
    obtain ⟨handlers, _, _, h⟩ := bind_run.mp h
    obtain ⟨attributes, _, _, h⟩ := bind_run.mp h
    cases h
    have hbytes := Reader.length_bytes hbytes
    simp only [not_or, UInt32.not_lt, UInt32.le_iff_toNat_le, ← UInt32.toNat_inj] at hlength
    change ¬ length.toNat = 0 ∧ length.toNat ≤ 65535 at hlength
    dsimp only
    refine ⟨?_, by omega⟩
    rintro rfl
    exact hlength.1 hbytes.symm

theorem Pass.finish_ok {codeLength : UInt16} {pass : Pass}
    (h : pass.finish codeLength = .ok steps) :
    pass.fallsThrough = false ∧ steps = pass.steps.reverse := by
  unfold finish at h
  cases hfalls : pass.fallsThrough with
  | true =>
      rw [hfalls, if_pos rfl] at h
      split at h <;> cases h
  | false =>
      rw [hfalls] at h
      cases h
      exact ⟨rfl, rfl⟩

namespace Accepted

theorem reached (h : Accepted pool method source rest code raw steps) :
    ∃ final, Pass.Reached (raw.premises method) (listing pool method raw.bytes).reverse final ∧
      final.steps = steps.reverse ∧ final.fallsThrough = false := by
  have hverified := h.verified
  unfold RawCode.verify Premises.verify at hverified
  obtain ⟨start, hstart, hverified⟩ := bind_ok.mp hverified
  obtain ⟨final, hrun, hfinish⟩ := bind_ok.mp hverified
  obtain ⟨hfalls, rfl⟩ := Pass.finish_ok hfinish
  unfold Pass.atOffset at hstart
  split at hstart
  · rename_i hstarts
    cases hstart
    have hreached := Pass.run_reached (.start hstarts) hrun
    rw [List.append_nil] at hreached
    exact ⟨final, hreached, List.reverse_reverse _ |>.symm, hfalls⟩
  · cases hstart

theorem instructions (h : Accepted pool method source rest code raw steps) :
    code.instructions = steps.map PassStep.verified := by
  obtain ⟨keepBytes, rfl⟩ := h.result
  rfl

theorem pcs (h : Accepted pool method source rest code raw steps) :
    steps.map PassStep.pc = (listing pool method raw.bytes).map ListedPlace.pc := by
  obtain ⟨final, hreached, hsteps, _⟩ := h.reached
  have hpcs := hreached.pcs
  rwa [hsteps, List.map_reverse, List.map_reverse, List.reverse_inj] at hpcs

/-- The steps stand in the order of their offsets. -/
theorem sorted (h : Accepted pool method source rest code raw steps) :
    steps.Pairwise fun a b => a.pc < b.pc := by
  have hlisting := listing_sorted pool method (RawCode.read_length h.read).2
  rw [← List.pairwise_map (f := ListedPlace.pc) (R := (· < ·)), ← h.pcs] at hlisting
  exact List.pairwise_map.mp hlisting

theorem ne_nil (h : Accepted pool method source rest code raw steps) : steps ≠ [] := by
  rintro rfl
  have hhead := listing_head pool method (RawCode.read_length h.read).1
  rw [← List.head?_map, ← h.pcs] at hhead
  cases hhead

/-- The pass ends with a transfer. -/
theorem transfer_last (h : Accepted pool method source rest code raw steps) {before : List PassStep}
    (hsteps : steps = before ++ [s]) : s.instruction.isTransfer = true := by
  obtain ⟨final, hreached, hfinal, hfalls⟩ := h.reached
  rw [hsteps, List.reverse_append, List.reverse_singleton, List.singleton_append] at hfinal
  have htransfer := (hreached.coherent.follows _ _ hfinal).1
  rw [hfalls] at htransfer
  simpa using htransfer.symm

/-- Behind a step that is no transfer there is another one. -/
theorem falls (h : Accepted pool method source rest code raw steps) (hs : s ∈ steps)
    (htransfer : s.instruction.isTransfer = false) : ∃ s', [s, s'] <:+: steps := by
  obtain ⟨before, behind, hsteps⟩ := List.append_of_mem hs
  cases behind with
  | nil =>
      rw [h.transfer_last hsteps] at htransfer
      cases htransfer
  | cons s' behind => exact ⟨s', before, behind, by rw [hsteps]; simp⟩

/-- How the pass came to a step: from a state that it reached with the steps before. -/
theorem taken (h : Accepted pool method source rest code raw steps) {earlier : List PassStep}
    (hsteps : s :: earlier <:+ steps.reverse) :
    ∃ seen pre place next, Pass.Reached (raw.premises method) seen pre ∧ pre.steps = earlier ∧
      Pass.Advances (raw.premises method) pre place s next := by
  obtain ⟨final, hreached, hfinal, _⟩ := h.reached
  exact hreached.taken (hfinal ▸ hsteps)

end Accepted

theorem suffix_reverse_of_mem (h : s ∈ steps) : ∃ earlier, s :: earlier <:+ steps.reverse := by
  obtain ⟨earlier, later, rfl⟩ := List.append_of_mem h
  refine ⟨earlier.reverse, later.reverse, ?_⟩
  simp

theorem infix_iff_suffix_reverse :
    [s, s'] <:+: steps ↔ ∃ earlier, s' :: s :: earlier <:+ steps.reverse := by
  constructor
  · rintro ⟨earlier, later, rfl⟩
    exact ⟨earlier.reverse, later.reverse, by simp⟩
  · rintro ⟨earlier, later, hsteps⟩
    refine ⟨earlier.reverse, later.reverse, List.reverse_inj.mp ?_⟩
    rw [← hsteps]
    simp

/-- The steps before a step are those at lower offsets. -/
theorem Accepted.mem_earlier (h : Accepted pool method source rest code raw steps)
    {earlier : List PassStep} (hsteps : s :: earlier <:+ steps.reverse) :
    s' ∈ earlier ↔ s' ∈ steps ∧ s'.pc < s.pc := by
  obtain ⟨later, hlater⟩ := hsteps
  have hreverse : steps.reverse.Pairwise fun a b => b.pc < a.pc := List.pairwise_reverse.mpr h.sorted
  rw [← hlater, List.pairwise_append, List.pairwise_cons] at hreverse
  obtain ⟨_, ⟨hearlier, _⟩, hlaterlt⟩ := hreverse
  have hmem : s' ∈ steps ↔ s' ∈ later ∨ s' = s ∨ s' ∈ earlier := by
    rw [← List.mem_reverse, ← hlater, List.mem_append, List.mem_cons]
  rw [hmem]
  constructor
  · exact fun hs' => ⟨.inr (.inr hs'), hearlier s' hs'⟩
  · rintro ⟨hs' | rfl | hs', hlt⟩
    · have := hlaterlt s' hs' s List.mem_cons_self
      exact absurd hlt (UInt16.lt_asymm this)
    · exact absurd hlt (UInt16.lt_irrefl _)
    · exact hs'

theorem Accepted.earlier_unique (h : Accepted pool method source rest code raw steps)
    {earlier earlier' : List PassStep} (hsteps : s :: earlier <:+ steps.reverse)
    (hsteps' : s :: earlier' <:+ steps.reverse) : earlier = earlier' := by
  have hnot : ∀ {e e' : List PassStep}, s :: e <:+ s :: e' → s :: e' <:+ steps.reverse → e = e' := by
    intro e e' hsuffix hsteps'
    rcases List.suffix_cons_iff.mp hsuffix with hsame | hinside
    · exact (List.cons.inj hsame).2
    · have hmem : s ∈ e' := hinside.mem List.mem_cons_self
      exact absurd ((h.mem_earlier hsteps').mp hmem).2 (UInt16.lt_irrefl _)
  rcases List.suffix_or_suffix_of_suffix hsteps hsteps' with hsuffix | hsuffix
  · exact hnot hsuffix hsteps'
  · exact (hnot hsuffix hsteps).symm

theorem Accepted.eq_of_pc_eq (h : Accepted pool method source rest code raw steps) (hs : s ∈ steps)
    (hs' : s' ∈ steps) (hpc : s.pc = s'.pc) : s = s' := by
  obtain ⟨earlier, later, hsteps⟩ := List.append_of_mem hs
  have hsorted := h.sorted
  rw [hsteps, List.pairwise_append, List.pairwise_cons] at hsorted
  rw [hsteps, List.mem_append, List.mem_cons] at hs'
  rcases hs' with hs' | rfl | hs'
  · have := hsorted.2.2 s' hs' s List.mem_cons_self
    exact absurd (hpc ▸ this) (UInt16.lt_irrefl _)
  · rfl
  · have := hsorted.2.1.1 s' hs'
    exact absurd (hpc ▸ this) (UInt16.lt_irrefl _)

end ClassFile
