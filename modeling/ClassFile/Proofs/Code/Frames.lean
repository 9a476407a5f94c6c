import Mathlib.Data.List.Nodup
import ClassFile.Proofs.Code.FrameForms

/-! What stack map frames mean. Each frame stands a number of bytes behind the one before it and changes its
locals; reading the frames of a method unfolds the changes from the locals that the method starts with. -/

namespace ClassFile

open Cursor

namespace FrameForm

/-- A change takes the locals of a frame to those of the next one. -/
inductive Changes : FrameForm → List VerificationType → List VerificationType → Prop
  | same {delta locals} : Changes (.same delta) locals locals
  | sameWithItem {delta item locals} : Changes (.sameWithItem delta item) locals locals
  | chop {delta count kept gone} (h : gone.length = count) : Changes (.chop count delta) (kept ++ gone) kept
  | append {delta types locals} : Changes (.append delta types) locals (locals ++ types)
  | full {delta locals stack previous} : Changes (.full delta locals stack) previous locals

theorem localsAfter_ok {form : FrameForm} {previous after : List VerificationType} :
    form.localsAfter previous = .ok after ↔ form.Changes previous after := by
  constructor
  · intro h
    cases form with
    | chop count delta =>
        simp only [localsAfter] at h
        split at h
        · cases h
        · cases h
          rename_i hcount
          have hgone : (previous.drop (previous.length - count)).length = count := by
            rw [List.length_drop]
            omega
          have hsplit := List.take_append_drop (previous.length - count) previous
          have hchop : Changes (.chop count delta) _ (previous.take (previous.length - count)) := .chop hgone
          rwa [hsplit] at hchop
    | _ =>
        cases h
        constructor
  · intro h
    cases h with
    | @chop _ count _ gone h =>
        have hnot : ¬ (after ++ gone).length < count := by
          rw [List.length_append, h]
          omega
        rw [localsAfter, if_neg hnot, List.length_append, h, Nat.add_sub_cancel, List.take_left]
    | _ => rfl

/-- The offset of a frame behind another one. The first frame of all is as far from the start as it tells, and
any two frames are one byte further apart, so that they cannot share an offset. -/
def offsetAfter (form : FrameForm) : Option StackMapFrame → Nat
  | none => form.delta.toNat
  | some previous => previous.offset.toNat + form.delta.toNat + 1

/-- The locals that the next frame changes: those of the frame before, or those that the method starts
with. -/
def localsBefore (initial : List VerificationType) : Option StackMapFrame → List VerificationType
  | none => initial
  | some previous => previous.locals

/-- A form makes a frame behind another one. -/
structure Makes (initial : List VerificationType) (form : FrameForm) (previous : Option StackMapFrame)
    (frame : StackMapFrame) : Prop where
  offset : frame.offset.toNat = form.offsetAfter previous
  locals : form.Changes (localsBefore initial previous) frame.locals
  stack : frame.stack = form.stackAfter

/-- The forms make the frames, each one behind the one before. -/
inductive Unfolds (initial : List VerificationType) :
    Option StackMapFrame → List FrameForm → List StackMapFrame → Prop
  | nil {previous} : Unfolds initial previous [] []
  | cons {previous form forms frame frames} (h : form.Makes initial previous frame)
    (hrest : Unfolds initial (some frame) forms frames) :
    Unfolds initial previous (form :: forms) (frame :: frames)

end FrameForm

open FrameForm

theorem frameOffset_ok {codeLength offset : UInt16} {n : Nat} {c c' : Cursor} :
    frameOffset codeLength n c = .ok offset c' ↔ offset.toNat = n ∧ offset < codeLength ∧ c = c' := by
  unfold frameOffset
  split
  · rename_i hpast
    refine ⟨nofun, fun ⟨hoffset, hless, _⟩ => ?_⟩
    rw [UInt16.lt_iff_toNat_lt] at hless
    omega
  · rename_i hwithin
    have hnat : (UInt16.ofNat n).toNat = n :=
      UInt16.toNat_ofNat_of_lt' (Nat.lt_trans (Nat.lt_of_not_le hwithin) codeLength.toNat_lt)
    have hless : UInt16.ofNat n < codeLength := by
      rw [UInt16.lt_iff_toNat_lt, hnat]
      exact Nat.lt_of_not_le hwithin
    rw [pure_run]
    constructor
    · rintro ⟨rfl, rfl⟩
      exact ⟨hnat, hless, rfl⟩
    · rintro ⟨hoffset, _, rfl⟩
      exact ⟨UInt16.toNat_inj.mp (hnat.trans hoffset.symm), rfl⟩

namespace FrameSequence

/-- Where reading stands behind some frames, the last one first. -/
def behind (initial : List VerificationType) (frames : List StackMapFrame) : FrameSequence where
  frames := frames
  locals := localsBefore initial frames.head?
  next := match frames.head? with
    | none => 0
    | some previous => previous.offset.toNat + 1

variable {pool : Pool} {initial : List VerificationType} {codeLength : UInt16}

theorem offset_behind (before : List StackMapFrame) (form : FrameForm) :
    (behind initial before).next + form.delta.toNat = form.offsetAfter before.head? := by
  cases before with
  | nil => exact Nat.zero_add _
  | cons previous before => exact Nat.add_right_comm _ _ _

theorem reads_extend (before : List StackMapFrame) :
    Reads (extend pool codeLength (behind initial before)) fun after bytes =>
      ∃ (form : FrameForm) (frame : StackMapFrame),
        form.Spelled pool bytes ∧ form.Makes initial before.head? frame ∧
        frame.offset < codeLength ∧ after = behind initial (frame :: before) := by
  intro after c c'
  unfold extend
  rw [bind_run]
  constructor
  · rintro ⟨form, d, hread, h⟩
    obtain ⟨bytes, hspelled, hpasses⟩ := (FrameForm.reads_read pool).mp hread
    cases hlocals : form.localsAfter (behind initial before).locals with
    | error fault =>
        rw [hlocals] at h
        cases h
    | ok locals =>
        rw [hlocals] at h
        obtain ⟨offset, e, hoffset, h⟩ := bind_run.mp h
        obtain ⟨htoNat, hwithin, rfl⟩ := frameOffset_ok.mp hoffset
        obtain ⟨rfl, rfl⟩ := pure_run.mp h
        refine ⟨bytes, ⟨form, ⟨offset, locals, form.stackAfter⟩, hspelled, ⟨?_, ?_, rfl⟩, hwithin, rfl⟩,
          hpasses⟩
        · rw [htoNat, offset_behind]
        · exact localsAfter_ok.mp hlocals
  · rintro ⟨bytes, ⟨form, frame, hspelled, hmakes, hwithin, rfl⟩, hpasses⟩
    refine ⟨form, c', (FrameForm.reads_read pool).mpr ⟨bytes, hspelled, hpasses⟩, ?_⟩
    have hlocals : form.localsAfter (behind initial before).locals = .ok frame.locals :=
      localsAfter_ok.mpr hmakes.locals
    rw [hlocals]
    refine bind_run.mpr ⟨frame.offset, c', frameOffset_ok.mpr ⟨?_, hwithin, rfl⟩, ?_⟩
    · rw [hmakes.offset, offset_behind]
    · rw [← hmakes.stack]
      rfl

/-- Reading a number of frames. The induction is on that number, and `before` are the frames so far. -/
theorem reads_iterate (before : List StackMapFrame) (n : Nat) :
    Reads (iterate (extend pool codeLength) (behind initial before) n) fun after bytes =>
      ∃ forms frames, forms.length = n ∧ SpelledAll (FrameForm.Spelled pool) forms bytes ∧
        Unfolds initial before.head? forms frames ∧ (∀ frame ∈ frames, frame.offset < codeLength) ∧
        after = behind initial (frames.reverse ++ before) := by
  induction n generalizing before with
  | zero =>
      intro after c c'
      rw [iterate, pure_run]
      constructor
      · rintro ⟨rfl, rfl⟩
        exact ⟨[], ⟨[], [], rfl, .nil, .nil, List.forall_mem_nil _, rfl⟩, passes_nil.mpr rfl⟩
      · rintro ⟨bytes, ⟨forms, frames, hlength, hspelled, hunfolds, _, rfl⟩, hpasses⟩
        obtain rfl := List.eq_nil_of_length_eq_zero hlength
        cases hspelled
        cases hunfolds
        exact ⟨rfl, (passes_nil.mp hpasses).symm⟩
  | succ n ih =>
      intro after c c'
      rw [iterate, bind_run]
      constructor
      · rintro ⟨so, d, hfirst, hrest⟩
        obtain ⟨front, ⟨form, frame, hspelled, hmakes, hwithin, rfl⟩, hpasses⟩ :=
          (reads_extend before).mp hfirst
        obtain ⟨back, ⟨forms, frames, rfl, hall, hunfolds, hothers, rfl⟩, hbehind⟩ := (ih _).mp hrest
        refine ⟨front ++ back, ⟨form :: forms, frame :: frames, rfl, .cons hspelled hall,
          .cons hmakes hunfolds, List.forall_mem_cons.mpr ⟨hwithin, hothers⟩, ?_⟩,
          passes_append.mpr ⟨d, hpasses, hbehind⟩⟩
        rw [List.reverse_cons, List.append_assoc, List.singleton_append]
      · rintro ⟨bytes, ⟨forms, frames, hlength, hspelled, hunfolds, hwithin, rfl⟩, hpasses⟩
        cases hunfolds with
        | nil => cases hlength
        | @cons _ form forms frame frames hmakes hunfolds =>
            cases hspelled with
            | @cons _ _ front back hfirst hall =>
                obtain ⟨hframe, hothers⟩ := List.forall_mem_cons.mp hwithin
                obtain ⟨d, hpasses, hbehind⟩ := passes_append.mp hpasses
                refine ⟨_, d, (reads_extend before).mpr
                  ⟨front, ⟨form, frame, hfirst, hmakes, hframe, rfl⟩, hpasses⟩, (ih _).mpr
                  ⟨back, ⟨forms, frames, Nat.succ.inj hlength, hall, hunfolds, hothers, ?_⟩, hbehind⟩⟩
                rw [List.reverse_cons, List.append_assoc, List.singleton_append]

end FrameSequence

/-- Bytes write frames as changes from the locals that a method starts with, all of them within the code. -/
structure FramesSpelled (pool : Pool) (initial : List VerificationType) (codeLength : UInt16)
    (forms : List FrameForm) (frames : List StackMapFrame) (bytes : List UInt8) : Prop where
  spelled : SpelledList (FrameForm.Spelled pool) forms bytes
  unfolds : Unfolds initial none forms frames
  within : ∀ frame ∈ frames, frame.offset < codeLength

theorem reads_readFrames (pool : Pool) (initial : List VerificationType) (codeLength : UInt16) :
    Reads (readFrames pool initial codeLength) fun frames bytes =>
      ∃ forms, FramesSpelled pool initial codeLength forms frames bytes := by
  intro frames c c'
  simp only [readFrames, bind_run, Reader.u16_ok]
  constructor
  · rintro ⟨count, d, hcount, after, e, hread, hresult⟩
    obtain ⟨bytes, ⟨forms, found, hlength, hspelled, hunfolds, hwithin, rfl⟩, hpasses⟩ :=
      (FrameSequence.reads_iterate [] count.toNat).mp hread
    obtain ⟨rfl, rfl⟩ := pure_run.mp hresult
    rw [← hlength] at hcount
    refine ⟨_, ⟨forms, .mk (hlength ▸ count.toNat_lt) hspelled, ?_, ?_⟩,
      passes_append.mpr ⟨d, hcount, hpasses⟩⟩
    · rwa [FrameSequence.behind, List.append_nil, List.reverse_reverse]
    · rwa [FrameSequence.behind, List.append_nil, List.reverse_reverse]
  · rintro ⟨_, ⟨forms, ⟨hlength, hspelled⟩, hunfolds, hwithin⟩, hpasses⟩
    obtain ⟨d, hcount, hpasses⟩ := passes_append.mp hpasses
    have hnat := UInt16.toNat_ofNat_of_lt' hlength
    refine ⟨UInt16.ofNat forms.length, d, by rwa [hnat], _, c', (FrameSequence.reads_iterate [] _).mpr
      ⟨_, ⟨forms, frames, hnat.symm, hspelled, hunfolds, hwithin, rfl⟩, hpasses⟩, ?_⟩
    rw [pure_run, FrameSequence.behind, List.append_nil, List.reverse_reverse]
    exact ⟨rfl, rfl⟩

namespace FrameForm

variable {pool : Pool} {initial : List VerificationType} {previous : Option StackMapFrame} {form : FrameForm}
  {forms : List FrameForm} {frame : StackMapFrame} {frames : List StackMapFrame}

theorem Unfolds.length_eq (h : Unfolds initial previous forms frames) : frames.length = forms.length := by
  induction h with
  | nil => rfl
  | cons _ _ ih => rw [List.length_cons, List.length_cons, ih]

theorem Unfolds.behind (h : Unfolds initial previous forms frames) :
    ∀ before ∈ previous, ∀ frame ∈ frames, before.offset < frame.offset := by
  induction h with
  | nil => exact fun _ _ => List.forall_mem_nil _
  | @cons previous form forms frame frames hmakes _ ih =>
      rintro before rfl
      have hfirst : before.offset < frame.offset := by
        rw [UInt16.lt_iff_toNat_lt, hmakes.offset, offsetAfter]
        omega
      have hothers : ∀ later ∈ frames, before.offset < later.offset :=
        fun later hlater => UInt16.lt_trans hfirst (ih frame rfl later hlater)
      exact List.forall_mem_cons.mpr ⟨hfirst, hothers⟩

/-- Offsets increase from each frame to the next one. -/
theorem Unfolds.increasing (h : Unfolds initial previous forms frames) :
    frames.Pairwise fun a b => a.offset < b.offset := by
  induction h with
  | nil => exact .nil
  | cons _ hrest ih => exact .cons (hrest.behind _ rfl) ih

/-- The form that makes a frame without a look at the one before, as far behind it. -/
def inFull (form : FrameForm) (frame : StackMapFrame) : FrameForm := .full form.delta frame.locals frame.stack

/-- Frames are unfolded from their full forms, whatever locals the method starts with. -/
theorem Unfolds.inFull (h : Unfolds initial previous forms frames) (other : List VerificationType) :
    Unfolds other previous (List.zipWith FrameForm.inFull forms frames) frames := by
  induction h with
  | nil => exact .nil
  | @cons previous form forms frame frames hmakes _ ih =>
      have hoffset : (form.inFull frame).offsetAfter previous = form.offsetAfter previous := by
        cases previous <;> rfl
      exact .cons ⟨hmakes.offset.trans hoffset.symm, .full, rfl⟩ ih

/-- The types that a form adds. -/
def types : FrameForm → List VerificationType
  | .same _ | .chop _ _ => []
  | .sameWithItem _ item => [item]
  | .append _ types => types
  | .full _ locals stack => locals ++ stack

theorem Spelled.types {bytes : List UInt8} (h : form.Spelled pool bytes) :
    ∀ type ∈ form.types, ∃ written, type.Spelled pool written := by
  cases h with
  | same | chop | farSame => exact List.forall_mem_nil _
  | sameWithItem _ _ hitem | farSameWithItem hitem => exact List.forall_mem_singleton.mpr ⟨_, hitem⟩
  | append _ _ _ htypes => exact htypes.spelled
  | full hlocals hstack => exact List.forall_mem_append.mpr ⟨hlocals.spelled, hstack.spelled⟩

/-- The locals hold types that the form adds, and some of those before. -/
theorem Changes.mem_types {before after : List VerificationType} (h : form.Changes before after) :
    ∀ type ∈ after, type ∈ before ∨ type ∈ form.types := by
  cases h with
  | same | sameWithItem => exact fun _ => .inl
  | chop => exact fun _ htype => .inl (List.mem_append_left _ htype)
  | append => exact fun _ => List.mem_append.mp
  | full => exact fun _ htype => .inr (List.mem_append_left _ htype)

theorem stackAfter_subset (form : FrameForm) : ∀ type ∈ form.stackAfter, type ∈ form.types := by
  cases form with
  | same | chop | append => exact List.forall_mem_nil _
  | sameWithItem delta item => exact fun _ => id
  | full delta locals stack => exact fun _ htype => List.mem_append_right _ htype

/-- All types of the frames can be written if those can be written that the method starts with. -/
theorem Unfolds.written {bytes : List UInt8} (h : Unfolds initial previous forms frames)
    (hspelled : SpelledAll (Spelled pool) forms bytes)
    (hbefore : ∀ type ∈ localsBefore initial previous, ∃ written, type.Spelled pool written) :
    ∀ frame ∈ frames, (∀ type ∈ frame.locals, ∃ written, type.Spelled pool written) ∧
      ∀ type ∈ frame.stack, ∃ written, type.Spelled pool written := by
  induction h generalizing bytes with
  | nil => exact List.forall_mem_nil _
  | @cons previous form forms frame frames hmakes _ ih =>
      cases hspelled with
      | cons hform hrest =>
          have hlocals : ∀ type ∈ frame.locals, ∃ written, type.Spelled pool written :=
            fun type htype => (hmakes.locals.mem_types type htype).elim (hbefore type) (hform.types type)
          have hstack : ∀ type ∈ frame.stack, ∃ written, type.Spelled pool written :=
            fun type htype => hform.types type (form.stackAfter_subset type (hmakes.stack ▸ htype))
          exact List.forall_mem_cons.mpr ⟨⟨hlocals, hstack⟩, ih hrest hlocals⟩

theorem exists_spelled_inFull (hlocals : frame.locals.length < 65536) (hstack : frame.stack.length < 65536)
    (h : (∀ type ∈ frame.locals, ∃ written, type.Spelled pool written) ∧
      ∀ type ∈ frame.stack, ∃ written, type.Spelled pool written) :
    ∃ bytes, (form.inFull frame).Spelled pool bytes := by
  obtain ⟨front, hfront⟩ := exists_spelledList hlocals h.1
  obtain ⟨back, hback⟩ := exists_spelledList hstack h.2
  exact ⟨_, .full hfront hback⟩

end FrameForm

namespace FramesSpelled

variable {pool : Pool} {initial : List VerificationType} {codeLength : UInt16} {forms : List FrameForm}
  {frames : List StackMapFrame} {bytes : List UInt8}

theorem fits (h : FramesSpelled pool initial codeLength forms frames bytes) : forms.length < 65536 := by
  obtain ⟨⟨hlength, _⟩, _⟩ := h
  exact hlength

/-- Frames written in full are the same frames, with whatever pool. -/
theorem inFull (h : FramesSpelled pool initial codeLength forms frames bytes) (other : List VerificationType)
    {pool' : Pool} {bytes' : List UInt8}
    (hspelled : SpelledList (FrameForm.Spelled pool') (List.zipWith FrameForm.inFull forms frames) bytes') :
    FramesSpelled pool' other codeLength (List.zipWith FrameForm.inFull forms frames) frames bytes' :=
  ⟨hspelled, h.unfolds.inFull other, h.within⟩

theorem exists_inFull (h : FramesSpelled pool initial codeLength forms frames bytes)
    (hinitial : ∀ type ∈ initial, ∃ written, type.Spelled pool written)
    (hshort : ∀ frame ∈ frames, frame.locals.length < 65536 ∧ frame.stack.length < 65536) :
    ∃ bytes', SpelledList (FrameForm.Spelled pool) (List.zipWith FrameForm.inFull forms frames) bytes' := by
  have hlength : (List.zipWith FrameForm.inFull forms frames).length = forms.length := by
    rw [List.length_zipWith, h.unfolds.length_eq, Nat.min_self]
  obtain ⟨written, hwritten⟩ : ∃ written, SpelledAll (FrameForm.Spelled pool) forms written := by
    obtain ⟨⟨_, hall⟩, _⟩ := h
    exact ⟨_, hall⟩
  refine exists_spelledList (hlength ▸ h.fits) fun full hfull => ?_
  obtain ⟨i, hi, rfl⟩ := List.getElem_of_mem hfull
  rw [List.getElem_zipWith]
  have hmem := List.getElem_mem (l := frames) (n := i) (by rw [h.unfolds.length_eq, ← hlength]; exact hi)
  exact FrameForm.exists_spelled_inFull (hshort _ hmem).1 (hshort _ hmem).2
    (h.unfolds.written hwritten hinitial _ hmem)

end FramesSpelled

section Full

variable {pool : Pool} {codeLength : UInt16}

theorem reads_readFullFrame (pool : Pool) (codeLength : UInt16) :
    Reads (readFullFrame pool codeLength) fun frame bytes =>
      frame.Spelled pool bytes ∧ frame.offset < codeLength := by
  have htype := VerificationType.reads_read pool
  intro frame c c'
  simp only [readFullFrame, bind_run, Reader.u16_ok, frameOffset_ok]
  constructor
  · rintro ⟨word, d, hword, offset, _, ⟨htoNat, hwithin, rfl⟩, locals, e, hlocals, stack, f, hstack, hresult⟩
    obtain ⟨rfl, rfl⟩ := pure_run.mp hresult
    obtain rfl := UInt16.toNat_inj.mp htoNat
    obtain ⟨front, hfront, hpasses⟩ := htype.list.mp hlocals
    obtain ⟨back, hback, hbehind⟩ := htype.list.mp hstack
    exact ⟨_, ⟨.mk hfront hback, hwithin⟩,
      passes_append.mpr ⟨d, hword, passes_append.mpr ⟨e, hpasses, hbehind⟩⟩⟩
  · rintro ⟨_, ⟨⟨hfront, hback⟩, hwithin⟩, hpasses⟩
    obtain ⟨d, hword, hpasses⟩ := passes_append.mp hpasses
    obtain ⟨e, hpasses, hbehind⟩ := passes_append.mp hpasses
    exact ⟨_, d, hword, _, d, ⟨rfl, hwithin, rfl⟩, _, e, htype.list.mpr ⟨_, hfront, hpasses⟩, _, c',
      htype.list.mpr ⟨_, hback, hbehind⟩, rfl⟩

/-- Frames in order share no offset if and only if their offsets increase. -/
theorem sharedOffset?_eq_none {frames : List StackMapFrame}
    (h : frames.Pairwise fun a b => a.offset ≤ b.offset) :
    sharedOffset? frames = none ↔ frames.Pairwise fun a b => a.offset < b.offset := by
  induction frames with
  | nil => exact ⟨fun _ => .nil, fun _ => rfl⟩
  | cons a frames ih =>
      obtain ⟨ha, hrest⟩ := List.pairwise_cons.mp h
      cases frames with
      | nil => exact ⟨fun _ => List.pairwise_singleton _ _, fun _ => rfl⟩
      | cons b rest =>
          rw [sharedOffset?]
          split
          · rename_i hsame
            refine ⟨nofun, fun hless => absurd hsame (UInt16.ne_of_lt ?_)⟩
            exact (List.pairwise_cons.mp hless).1 b List.mem_cons_self
          · rename_i hapart
            rw [ih hrest]
            refine ⟨fun hless => .cons (fun later hlater => ?_) hless, List.Pairwise.of_cons⟩
            have hfirst : a.offset < b.offset := UInt16.lt_of_le_of_ne (ha b List.mem_cons_self) hapart
            rcases List.mem_cons.mp hlater with rfl | hlater
            · exact hfirst
            · exact UInt16.lt_trans hfirst ((List.pairwise_cons.mp hless).1 later hlater)

/-- Sorting frames by their offsets. -/
def sortFrames (frames : List StackMapFrame) : List StackMapFrame :=
  frames.mergeSort fun a b => a.offset ≤ b.offset

theorem pairwise_sortFrames (frames : List StackMapFrame) :
    (sortFrames frames).Pairwise fun a b => a.offset ≤ b.offset := by
  refine (List.pairwise_mergeSort (fun a b c hab hbc => ?_) (fun a b => ?_) frames).imp of_decide_eq_true
  · exact decide_eq_true (UInt16.le_trans (of_decide_eq_true hab) (of_decide_eq_true hbc))
  · rw [← Bool.decide_or, decide_eq_true_eq]
    exact UInt16.le_total _ _

/-- Frames whose offsets increase are what sorting makes of them. -/
theorem sortFrames_eq {frames listed : List StackMapFrame} (hperm : frames.Perm listed)
    (h : frames.Pairwise fun a b => a.offset < b.offset) : sortFrames listed = frames := by
  have hsorted : (sortFrames listed).Perm frames := (List.mergeSort_perm _ _).trans hperm.symm
  refine List.Perm.eq_of_pairwise (fun a b ha hb hle hle' => ?_) (pairwise_sortFrames listed)
    (h.imp UInt16.le_of_lt) hsorted
  have hnodup : (frames.map StackMapFrame.offset).Nodup := List.pairwise_map.mpr (h.imp UInt16.ne_of_lt)
  exact List.inj_on_of_nodup_map hnodup (hsorted.subset ha) hb (UInt16.le_antisymm hle hle')

theorem readFullFrames_ok {frames : List StackMapFrame} {c c' : Cursor} :
    readFullFrames pool codeLength c = .ok frames c' ↔
      ∃ listed, Reader.list (readFullFrame pool codeLength) c = .ok listed c' ∧
        sharedOffset? (sortFrames listed) = none ∧ frames = sortFrames listed := by
  rw [readFullFrames, bind_run]
  refine exists_congr fun listed => ?_
  unfold sortFrames
  constructor
  · rintro ⟨d, hread, hresult⟩
    cases hshared : sharedOffset? (listed.mergeSort fun a b => decide (a.offset ≤ b.offset)) with
    | some offset =>
        simp only [hshared] at hresult
        cases hresult
    | none =>
        simp only [hshared] at hresult
        obtain ⟨rfl, rfl⟩ := pure_run.mp hresult
        exact ⟨hread, rfl, rfl⟩
  · rintro ⟨hread, hshared, rfl⟩
    refine ⟨c', hread, ?_⟩
    simp only [hshared]
    rfl

theorem reads_readFullFrames (pool : Pool) (codeLength : UInt16) :
    Reads (readFullFrames pool codeLength) fun frames bytes =>
      ∃ listed, SpelledList (StackMapFrame.Spelled pool) listed bytes ∧
        (∀ frame ∈ listed, frame.offset < codeLength) ∧ frames.Perm listed ∧
        frames.Pairwise fun a b => a.offset < b.offset := by
  have hlist := (reads_readFullFrame pool codeLength).list
  intro frames c c'
  rw [readFullFrames_ok]
  constructor
  · rintro ⟨listed, hread, hshared, rfl⟩
    obtain ⟨bytes, hboth, hpasses⟩ := hlist.mp hread
    obtain ⟨hspelled, hwithin⟩ := spelledList_and.mp hboth
    exact ⟨bytes, ⟨listed, hspelled, hwithin, List.mergeSort_perm _ _,
      (sharedOffset?_eq_none (pairwise_sortFrames listed)).mp hshared⟩, hpasses⟩
  · rintro ⟨bytes, ⟨listed, hspelled, hwithin, hperm, hincreasing⟩, hpasses⟩
    have hsort := sortFrames_eq hperm hincreasing
    refine ⟨listed, hlist.mpr ⟨bytes, spelledList_and.mpr ⟨hspelled, hwithin⟩, hpasses⟩, ?_, hsort.symm⟩
    rw [hsort, sharedOffset?_eq_none (hincreasing.imp UInt16.le_of_lt)]
    exact hincreasing

end Full

/-- Stack map frames are read if and only if the next bytes write the number of frames that they announce, as
changes which can be unfolded from the locals that the method starts with and do not leave the code. There
is a frame for each change, at increasing offsets. The same frames are read where each of them is written in
full, with the same deltas and with any pool; that can be done with the same pool if the frames are short
enough and the types that the method starts with can be written. Frames that are written in full and in any
order are read if and only if no two of them share an offset, and come in order. -/
theorem readFrames_unfolds (pool : Pool) (initial : List VerificationType) (codeLength : UInt16) :
    (∀ c c' frames, readFrames pool initial codeLength c = .ok frames c' ↔
      ∃ forms bytes, FramesSpelled pool initial codeLength forms frames bytes ∧ Passes bytes c c') ∧
    (∀ forms frames bytes, FramesSpelled pool initial codeLength forms frames bytes →
      frames.length = forms.length ∧ (frames.Pairwise fun a b => a.offset < b.offset) ∧
      (∀ pool' bytes' c c',
        SpelledList (FrameForm.Spelled pool') (List.zipWith FrameForm.inFull forms frames) bytes' →
          Passes bytes' c c' → readFrames pool' initial codeLength c = .ok frames c') ∧
      ((∀ type ∈ initial, ∃ written, type.Spelled pool written) →
        (∀ frame ∈ frames, frame.locals.length < 65536 ∧ frame.stack.length < 65536) →
          ∃ bytes', SpelledList (FrameForm.Spelled pool)
            (List.zipWith FrameForm.inFull forms frames) bytes')) ∧
    ∀ c c' frames, readFullFrames pool codeLength c = .ok frames c' ↔
      ∃ listed bytes, SpelledList (StackMapFrame.Spelled pool) listed bytes ∧
        (∀ frame ∈ listed, frame.offset < codeLength) ∧ frames.Perm listed ∧
        (frames.Pairwise fun a b => a.offset < b.offset) ∧ Passes bytes c c' := by
  refine ⟨fun c c' frames => ?_, fun forms frames bytes h => ⟨h.unfolds.length_eq, h.unfolds.increasing, ?_,
    h.exists_inFull⟩, fun c c' frames => ?_⟩
  · rw [reads_readFrames]
    exact ⟨fun ⟨bytes, ⟨forms, h⟩, hpasses⟩ => ⟨forms, bytes, h, hpasses⟩,
      fun ⟨forms, bytes, h, hpasses⟩ => ⟨bytes, ⟨forms, h⟩, hpasses⟩⟩
  · intro pool' bytes' c c' hspelled hpasses
    exact (reads_readFrames pool' initial codeLength).mpr ⟨bytes', ⟨_, h.inFull initial hspelled⟩, hpasses⟩
  · rw [reads_readFullFrames]
    constructor
    · rintro ⟨bytes, ⟨listed, hspelled, hwithin, hperm, hincreasing⟩, hpasses⟩
      exact ⟨listed, bytes, hspelled, hwithin, hperm, hincreasing, hpasses⟩
    · rintro ⟨listed, bytes, hspelled, hwithin, hperm, hincreasing, hpasses⟩
      exact ⟨bytes, ⟨listed, hspelled, hwithin, hperm, hincreasing⟩, hpasses⟩

/-- Five frames: near ones first, then locals are added and removed, and the last one is written in full. -/
example : (success? (readFrames
    ⟨#[.vacant, .entry (.utf8 (.ofString "java/lang/String")), .entry (.classInfo 1)]⟩ [.integer] 20
    (.ofBytes [0, 5, 3, 66, 1, 252, 0, 4, 7, 0, 2, 249, 0, 0, 255, 0, 1, 0, 1, 4, 0, 2, 3, 5]))).map
      (fun found => found.1.map fun frame => (frame.offset, frame.locals.length, frame.stack)) =
    some [(3, 1, []), (6, 1, [.integer]), (11, 2, []), (12, 0, []), (14, 1, [.double, .null])] := by
  decide +kernel

end ClassFile
