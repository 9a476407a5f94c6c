import ClassFile.Proofs.Instruction.Tiling
import ClassFile.Proofs.Verification.Leftover

/-! Bytes that are reported as left over are indeed not reached. While the pass goes over instructions behind
a transfer and knows no way there, it remembers where they start. What it remembers at the end is the start of
instructions that those before it neither fall into nor branch to, and at which there is no handler and no
frame. -/

namespace ClassFile

/-- An error that does not say that bytes are left over. -/
def Error.NoLeftover (error : Error) : Prop :=
  ∀ pc fault, error.fault = .code pc fault → fault.NoLeftover

/-- The offsets that what was decoded can branch to. -/
def Operation.branchTargets : Operation → List UInt16
  | .instruction i => i.branchTargets
  | .shuffle _ => []

/-- Whether control never continues behind what was decoded. -/
def Operation.isTransfer : Operation → Bool
  | .instruction i => i.isTransfer
  | .shuffle _ => false

/-- An operation was decoded at a place. -/
def ListedPlace.Holds (place : ListedPlace) (operation : Operation) : Prop :=
  ∃ next, place.decoded = .ok ⟨operation, next⟩

/-- The instructions of a listing from an offset on are not reached from the ones before. The first of them
stands right behind a transfer, no instruction before falls into one of them or branches to one, and none of
them is where a handler or a frame is. -/
structure Unreached (places : List ListedPlace) (handlers : List ExceptionHandler)
    (frames : List StackMapFrame) (start : Nat) : Prop where
  decoded : ∀ place ∈ places, ∃ operation, place.Holds operation
  behind : ∃ prior first operation, [prior, first] <:+: places ∧ prior.Holds operation ∧
    operation.isTransfer = true ∧ first.pc.toNat = start
  falls : ∀ prior following operation, [prior, following] <:+: places → prior.Holds operation →
    operation.isTransfer = false → prior.pc.toNat < start → following.pc.toNat < start
  branches : ∀ place ∈ places, ∀ operation, place.Holds operation → place.pc.toNat < start →
    ∀ target ∈ operation.branchTargets, ∀ later ∈ places, start ≤ later.pc.toNat → later.pc ≠ target
  handlers : ∀ handler ∈ handlers, ∀ later ∈ places, start ≤ later.pc.toNat → later.pc ≠ handler.handler
  frames : ∀ frame ∈ frames, ∀ later ∈ places, start ≤ later.pc.toNat → later.pc ≠ frame.offset

theorem Operation.Becomes.branchTargets {operation : Operation} {i : Instruction}
    (h : operation.Becomes i) : i.branchTargets = operation.branchTargets := by
  cases operation with
  | instruction j =>
      cases h
      rfl
  | shuffle op =>
      obtain ⟨form, rfl, -⟩ := h
      rfl

theorem Operation.Becomes.isTransfer {operation : Operation} {i : Instruction}
    (h : operation.Becomes i) : i.isTransfer = operation.isTransfer := by
  cases operation with
  | instruction j =>
      cases h
      rfl
  | shuffle op =>
      obtain ⟨form, rfl, -⟩ := h
      rfl

theorem ListedPlace.Holds.unique {place : ListedPlace} {operation other : Operation}
    (h : place.Holds operation) (h' : place.Holds other) : operation = other := by
  obtain ⟨next, hdecoded⟩ := h
  obtain ⟨next', hdecoded'⟩ := h'
  cases hdecoded.symm.trans hdecoded'
  rfl

theorem PassStep.Comes.holds {p : Premises} {place : ListedPlace} {s : PassStep} (h : s.Comes p place) :
    ∃ operation, place.Holds operation ∧ operation.Becomes s.instruction := by
  obtain ⟨decoded, hdecoded, hperform⟩ := h.performed
  exact ⟨decoded.operation, ⟨decoded.next, hdecoded⟩, Operation.becomes_of_perform hperform⟩

/-- What an instruction is a step of tells what was decoded there. -/
theorem PassStep.Comes.becomes {p : Premises} {place : ListedPlace} {s : PassStep} (h : s.Comes p place)
    {operation : Operation} (hholds : place.Holds operation) : operation.Becomes s.instruction := by
  obtain ⟨other, hother, hbecomes⟩ := h.holds
  rwa [hholds.unique hother]

namespace Pass

variable {p : Premises} {pass next final : Pass} {s prior : PassStep} {start : UInt16}
  {tail earlier : List PassStep}

theorem isKnown_eq_false {pc : UInt16} :
    pass.isKnown p pc = false ↔
      p.frameAt? pc = none ∧ pass.arrivalAt? pc = none ∧ p.isHandler pc = false := by
  simp [isKnown, and_assoc]

/-- Where no branch has left anything, none of the steps so far branches forward to. -/
theorem Coherent.notMem_targets (h : Coherent p pass) {pc : UInt16} (harrival : pass.arrivalAt? pc = none) :
    ∀ s ∈ pass.steps, s.pc < pc → pc ∉ s.targets := by
  intro s hs hlt htarget
  obtain ⟨arrival, hfound, -⟩ := h.left s hs pc htarget hlt
  rw [harrival] at hfound
  cases hfound

/-- The last steps, from an offset on, are behind a transfer, and nothing that was seen by the time they were
taken tells of a way there. The last step comes first. -/
structure Tail (p : Premises) (pass : Pass) (start : UInt16) (tail : List PassStep) (prior : PassStep)
    (earlier : List PassStep) : Prop where
  steps : pass.steps = tail ++ prior :: earlier
  first : ∃ front first, tail = front ++ [first] ∧ first.pc = start
  transfer : prior.instruction.isTransfer = true
  unframed : ∀ s ∈ tail, p.frameAt? s.pc = none
  uncaught : ∀ s ∈ tail, p.isHandler s.pc = false
  unbranched : ∀ s ∈ tail, ∀ s' ∈ prior :: earlier, s'.pc < s.pc → s.pc ∉ s'.targets

/-- The steps behind a transfer that nothing is known of are those that the pass remembers. -/
def Remembers (p : Premises) (pass : Pass) : Prop :=
  ∀ start, pass.unreached = some start → ∃ tail prior earlier, Tail p pass start tail prior earlier

theorem Tail.one (h : Coherent p pass) (hunknown : pass.isKnown p s.pc = false)
    (hfalls : pass.fallsThrough = false) (hsteps : next.steps = s :: pass.steps) :
    ∃ prior earlier, Tail p next s.pc [s] prior earlier := by
  obtain ⟨hframe, harrival, hhandler⟩ := isKnown_eq_false.mp hunknown
  cases hpass : pass.steps with
  | nil =>
      rw [(h.begins hpass).1] at hfalls
      cases hfalls
  | cons prior earlier =>
      have htransfer := (h.follows prior earlier hpass).1
      rw [hfalls, Bool.false_eq, Bool.not_eq_false'] at htransfer
      have hbranches := h.notMem_targets harrival
      rw [hpass] at hsteps hbranches
      refine ⟨prior, earlier, hsteps, ⟨[], s, rfl, rfl⟩, htransfer, ?_, ?_, ?_⟩
      · simpa using hframe
      · simpa using hhandler
      · simpa using hbranches

theorem Tail.more (htail : Tail p pass start tail prior earlier) (h : Coherent p pass)
    (hunknown : pass.isKnown p s.pc = false) (hsteps : next.steps = s :: pass.steps) :
    Tail p next start (s :: tail) prior earlier := by
  obtain ⟨hframe, harrival, hhandler⟩ := isKnown_eq_false.mp hunknown
  obtain ⟨front, first, hfront, hpc⟩ := htail.first
  refine ⟨?_, ⟨s :: front, first, ?_, hpc⟩, htail.transfer, ?_, ?_, ?_⟩
  · rw [hsteps, htail.steps, List.cons_append]
  · rw [hfront, List.cons_append]
  · exact List.forall_mem_cons.mpr ⟨hframe, htail.unframed⟩
  · exact List.forall_mem_cons.mpr ⟨hhandler, htail.uncaught⟩
  · refine List.forall_mem_cons.mpr ⟨fun s' hs' => ?_, htail.unbranched⟩
    refine h.notMem_targets harrival s' ?_
    rw [htail.steps]
    exact List.mem_append_right _ hs'

theorem step_unreached {place : ListedPlace} (h : pass.step p place = .ok next) :
    next.unreached = pass.unreachedAt p place.pc := by
  unfold step at h
  obtain ⟨_, _, h⟩ := bind_ok.mp h
  obtain ⟨_, _, h⟩ := bind_ok.mp h
  obtain ⟨_, _, h⟩ := bind_ok.mp h
  obtain ⟨_, _, h⟩ := bind_ok.mp h
  obtain ⟨_, _, h⟩ := bind_ok.mp h
  cases h
  rfl

theorem Remembers.step {place : ListedPlace} (h : Remembers p pass) (hcoherent : Coherent p pass)
    (hstep : pass.step p place = .ok next) : Remembers p next := by
  obtain ⟨s, hadvances⟩ := step_ok hstep
  intro start hstart
  rw [step_unreached hstep, ← hadvances.pc, unreachedAt] at hstart
  split at hstart
  · cases hstart
  · rename_i hunknown
    rw [Bool.not_eq_true] at hunknown
    split at hstart
    · rename_i hnew
      rw [Bool.and_eq_true, Bool.not_eq_true'] at hnew
      cases hstart
      obtain ⟨prior, earlier, htail⟩ := Tail.one hcoherent hunknown hnew.1 hadvances.steps
      exact ⟨[s], prior, earlier, htail⟩
    · obtain ⟨tail, prior, earlier, htail⟩ := h start hstart
      exact ⟨s :: tail, prior, earlier, htail.more hcoherent hunknown hadvances.steps⟩

theorem Remembers.begins (h : Pass.start p = .ok pass) : Remembers p pass := by
  obtain ⟨locals, _, hpass⟩ := bind_ok.mp h
  cases hpass
  exact nofun

theorem Remembers.run {seen places : List ListedPlace} (h : Remembers p pass) (hreached : Reached p seen pass)
    (hrun : run p pass places = .ok final) : Remembers p final := by
  induction places generalizing seen pass with
  | nil =>
      cases hrun
      exact h
  | cons place rest ih =>
      obtain ⟨next, hstep, hrest⟩ := bind_ok.mp hrun
      rw [atOffset_ok] at hstep
      obtain ⟨s, hadvances⟩ := step_ok hstep
      exact ih (h.step hreached.coherent hstep) (.step hreached hadvances) hrest

theorem noLeftover_atOffset {α : Type} {pc : UInt16} {result : Except CodeFault α}
    (h : FindsNoLeftover result) : FailsOnly Error.NoLeftover (atOffset pc result) := by
  cases result with
  | ok value => exact .ok value
  | error fault =>
      refine .error ?_
      rintro _ _ ⟨⟩
      exact h fault rfl

theorem noLeftover_run {places : List ListedPlace}
    (hplaces : ∀ place ∈ places, FindsNoLeftover place.decoded) :
    FailsOnly Error.NoLeftover (run p pass places) := by
  induction places generalizing pass with
  | nil => exact .ok pass
  | cons place rest ih =>
      rw [List.forall_mem_cons] at hplaces
      exact .bind (noLeftover_atOffset (noLeftover_step hplaces.1)) fun _ _ => ih hplaces.2

theorem finish_error {codeLength : UInt16} {e : Error} (h : pass.finish codeLength = .error e) :
    e.NoLeftover ∨ ∃ start, pass.unreached = some start ∧
      e.fault = .code start (.wrongCodeLength codeLength.toNat start.toNat) := by
  unfold finish at h
  split at h
  · split at h
    · rename_i start hstart
      cases h
      exact .inr ⟨start, (Option.filter_eq_some_iff.mp hstart).1, rfl⟩
    · cases h
      refine .inl ?_
      rintro _ _ ⟨⟩
      trivial
  · cases h

end Pass

/-- How it comes to a report of bytes that are left over: all places were gone over, and the pass remembers
steps behind a transfer. -/
theorem Premises.verify_leftover {p : Premises} {codeLength : UInt16} {places : List ListedPlace} {e : Error}
    (hplaces : ∀ place ∈ places, FindsNoLeftover place.decoded)
    (h : p.verify codeLength places = .error e) (hleftover : ¬ e.NoLeftover) :
    ∃ start, e.fault = .code start (.wrongCodeLength codeLength.toNat start.toNat) ∧
      ∃ final steps tail prior earlier, List.Forall₂ (PassStep.Comes p) places steps ∧
        final.steps = steps.reverse ∧ Pass.Tail p final start tail prior earlier := by
  rcases bind_error.mp h with hstart | ⟨pass, hstart, h⟩
  · have hfaults := Pass.blames_start CodeFault.Plain.noLeftover p
    exact absurd (Pass.noLeftover_atOffset hfaults e hstart) hleftover
  rcases bind_error.mp h with hrun | ⟨final, hrun, hfinish⟩
  · exact absurd (Pass.noLeftover_run hplaces e hrun) hleftover
  rcases Pass.finish_error hfinish with hnone | ⟨start, hunreached, hfault⟩
  · exact absurd hnone hleftover
  rw [Pass.atOffset_ok] at hstart
  have hremembers := (Pass.Remembers.begins hstart).run (.start hstart) hrun
  obtain ⟨tail, prior, earlier, htail⟩ := hremembers start hunreached
  obtain ⟨hsound, hnone⟩ := Pass.start_sound hstart
  obtain ⟨steps, hcomes, hsteps⟩ := Pass.run_comes hsound hrun
  rw [hnone, List.append_nil] at hsteps
  exact ⟨start, hfault, final, steps, tail, prior, earlier, hcomes, hsteps, htail⟩

theorem Premises.frameAt?_eq_none {p : Premises} {pc : UInt16} :
    p.frameAt? pc = none ↔ ∀ frame ∈ p.frames, pc ≠ frame.offset := by
  rw [frameAt?, List.find?_eq_none]
  simp only [decide_eq_true_eq]
  exact forall₂_congr fun _ _ => ne_comm

theorem Premises.isHandler_eq_false {p : Premises} {pc : UInt16} :
    p.isHandler pc = false ↔ ∀ handler ∈ p.handlers, pc ≠ handler.handler := by
  rw [isHandler, catchTypesAt, Bool.not_eq_false', List.isEmpty_iff, List.map_eq_nil_iff,
    List.filter_eq_nil_iff]
  simp only [decide_eq_true_eq]
  exact forall₂_congr fun _ _ => ne_comm

theorem exists_split_of_forall₂ {α β : Type} {R : α → β → Prop} {items : List α} {front back : List β}
    (h : List.Forall₂ R items (front ++ back)) :
    ∃ before behind, items = before ++ behind ∧ List.Forall₂ R before front ∧ List.Forall₂ R behind back :=
  ⟨_, _, (List.take_append_drop _ _).symm, List.forall₂_take_append _ _ _ h,
    List.forall₂_drop_append _ _ _ h⟩

section Places

variable {p : Premises} {places : List ListedPlace} {final : Pass} {start : UInt16}
  {steps tail earlier : List PassStep} {prior : PassStep}

theorem exists_step {front : List ListedPlace} {taken : List PassStep}
    (h : List.Forall₂ (PassStep.Comes p) front taken) {place : ListedPlace} (hplace : place ∈ front) :
    ∃ s ∈ taken, s.Comes p place := by
  induction h with
  | nil => cases hplace
  | cons hcomes _ ih =>
      rcases List.mem_cons.mp hplace with rfl | hrest
      · exact ⟨_, List.mem_cons_self, hcomes⟩
      · obtain ⟨s, hs, hcomes⟩ := ih hrest
        exact ⟨s, List.mem_cons_of_mem _ hs, hcomes⟩

theorem filter_below {front behind : List ListedPlace} (hfront : ∀ place ∈ front, place.pc < start)
    (hbehind : ∀ place ∈ behind, start ≤ place.pc) :
    (front ++ behind).filter (fun place => decide (place.pc < start)) = front := by
  rw [List.filter_append, List.filter_eq_self.mpr, List.filter_eq_nil_iff.mpr, List.append_nil]
  · exact fun place hplace => by simpa using hbehind place hplace
  · exact fun place hplace => by simpa using hfront place hplace

/-- Of places in order, the last one below an offset is the one before the first that is not. -/
theorem filter_of_adjacent (hsorted : places.Pairwise fun a b => a.pc < b.pc)
    {before behind : List ListedPlace} {last first : ListedPlace}
    (hsplit : places = before ++ [last, first] ++ behind) (hlast : last.pc < start)
    (hfirst : start ≤ first.pc) :
    places.filter (fun place => decide (place.pc < start)) = before ++ [last] := by
  have hplaces : places = (before ++ [last]) ++ (first :: behind) := by simp [hsplit]
  rw [hplaces, List.pairwise_append] at hsorted
  obtain ⟨hbefore, hbehind, -⟩ := hsorted
  rw [hplaces]
  refine filter_below (fun place hplace => ?_) fun place hplace => ?_
  · rw [List.pairwise_append] at hbefore
    rcases List.mem_append.mp hplace with hmem | hmem
    · exact UInt16.lt_trans (hbefore.2.2 place hmem last List.mem_cons_self) hlast
    · rwa [List.mem_singleton.mp hmem]
  · rcases List.mem_cons.mp hplace with rfl | hmem
    · exact hfirst
    · exact UInt16.le_trans hfirst (UInt16.le_of_lt ((List.pairwise_cons.mp hbehind).1 place hmem))

/-- The places of the steps that the pass remembers, and of those before. -/
theorem Pass.Tail.exists_split (htail : Pass.Tail p final start tail prior earlier)
    (hsteps : final.steps = steps.reverse) (hcomes : List.Forall₂ (PassStep.Comes p) places steps) :
    ∃ before transfer first behind, places = before ++ [transfer, first] ++ behind ∧
      first.pc = start ∧ prior.Comes p transfer ∧
      List.Forall₂ (PassStep.Comes p) (before ++ [transfer]) (earlier.reverse ++ [prior]) ∧
      List.Forall₂ (PassStep.Comes p) (first :: behind) tail.reverse := by
  obtain ⟨front, last, hfront, hpc⟩ := htail.first
  have hall : steps = earlier.reverse ++ (prior :: tail.reverse) := by
    rw [← List.reverse_reverse steps, ← hsteps, htail.steps]
    simp
  rw [hall] at hcomes
  obtain ⟨before, rest, rfl, hbefore, hrest⟩ := exists_split_of_forall₂ hcomes
  obtain ⟨transfer, more, htransfer, hmore, rfl⟩ := List.forall₂_cons_right_iff.mp hrest
  have hreverse : tail.reverse = last :: front.reverse := by rw [hfront, List.reverse_concat]
  have hmore' := hmore
  rw [hreverse] at hmore'
  obtain ⟨first, behind, hfirst, _, rfl⟩ := List.forall₂_cons_right_iff.mp hmore'
  exact ⟨before, transfer, first, behind, by simp, hfirst.pc.symm.trans hpc, htransfer,
    List.rel_append hbefore (.cons htransfer .nil), hmore⟩

/-- Where the steps that the pass remembers start, a place below was stepped over before the others. -/
theorem Pass.Tail.exists_sides (htail : Pass.Tail p final start tail prior earlier)
    (hsteps : final.steps = steps.reverse) (hcomes : List.Forall₂ (PassStep.Comes p) places steps)
    (hsorted : places.Pairwise fun a b => a.pc < b.pc) {place : ListedPlace} (hplace : place ∈ places) :
    (place.pc < start ∧ ∃ s ∈ prior :: earlier, s.Comes p place) ∨
      (start ≤ place.pc ∧ ∃ s ∈ tail, s.Comes p place) := by
  obtain ⟨before, transfer, first, behind, hsplit, rfl, -, hbefore, hbehind⟩ :=
    htail.exists_split hsteps hcomes
  have hplaces : places = (before ++ [transfer]) ++ (first :: behind) := by simp [hsplit]
  rw [hplaces, List.pairwise_append] at hsorted
  rw [hplaces, List.mem_append] at hplace
  rcases hplace with hmem | hmem
  · obtain ⟨s, hs, hcomesAt⟩ := exists_step hbefore hmem
    exact .inl ⟨hsorted.2.2 place hmem first List.mem_cons_self, s, by simpa [or_comm] using hs, hcomesAt⟩
  · obtain ⟨s, hs, hcomesAt⟩ := exists_step hbehind hmem
    refine .inr ⟨?_, s, by simpa using hs, hcomesAt⟩
    rcases List.mem_cons.mp hmem with rfl | hmore
    · exact UInt16.le_refl _
    · exact UInt16.le_of_lt ((List.pairwise_cons.mp hsorted.2.1).1 place hmore)

/-- What the pass remembers at the end is not reached. -/
theorem Pass.Tail.unreached (htail : Pass.Tail p final start tail prior earlier)
    (hsteps : final.steps = steps.reverse) (hcomes : List.Forall₂ (PassStep.Comes p) places steps)
    (hsorted : places.Pairwise fun a b => a.pc < b.pc) :
    Unreached places p.handlers p.frames start.toNat := by
  obtain ⟨before, transfer, first, behind, hsplit, hfirst, htransfer, -, -⟩ :=
    htail.exists_split hsteps hcomes
  obtain ⟨operation, hoperation, hbecomes⟩ := htransfer.holds
  have hleaves := htail.transfer
  rw [hbecomes.isTransfer] at hleaves
  have hsides {place : ListedPlace} (hplace : place ∈ places) :=
    htail.exists_sides hsteps hcomes hsorted hplace
  have hbelow {place : ListedPlace} (hplace : place ∈ places) (hlt : place.pc.toNat < start.toNat) :
      ∃ s ∈ prior :: earlier, s.Comes p place :=
    ((hsides hplace).resolve_right fun h => Nat.not_le.mpr hlt (UInt16.le_iff_toNat_le.mp h.1)).2
  have hfrom {place : ListedPlace} (hplace : place ∈ places) (hle : start.toNat ≤ place.pc.toNat) :
      ∃ s ∈ tail, s.Comes p place :=
    ((hsides hplace).resolve_left fun h => Nat.not_le.mpr (UInt16.lt_iff_toNat_lt.mp h.1) hle).2
  constructor
  case decoded =>
    intro place hplace
    rcases hsides hplace with ⟨-, s, -, hcomesAt⟩ | ⟨-, s, -, hcomesAt⟩
    all_goals
      obtain ⟨decoded, hholds, -⟩ := hcomesAt.holds
      exact ⟨decoded, hholds⟩
  case behind =>
    exact ⟨transfer, first, operation, ⟨before, behind, hsplit.symm⟩, hoperation, hleaves,
      congrArg UInt16.toNat hfirst⟩
  case falls =>
    rintro last following other ⟨before', behind', hsplit'⟩ hholds hfalls hlt
    by_contra hle
    have hfiltered := filter_of_adjacent hsorted hsplit'.symm (UInt16.lt_iff_toNat_lt.mpr hlt)
      (UInt16.le_iff_toNat_le.mpr (Nat.not_lt.mp hle))
    have hstart : transfer.pc < start := by
      rw [hsplit, List.append_assoc, List.pairwise_append] at hsorted
      exact hfirst ▸ (List.pairwise_cons.mp hsorted.2.1).1 first List.mem_cons_self
    have hfrom : start ≤ first.pc := hfirst ▸ UInt16.le_refl start
    rw [filter_of_adjacent hsorted hsplit hstart hfrom] at hfiltered
    -- The last place below the start is the transfer, which does not fall through.
    obtain ⟨-, hlast⟩ := List.append_inj' hfiltered rfl
    cases hlast
    cases hholds.unique hoperation
    rw [hleaves] at hfalls
    cases hfalls
  case branches =>
    rintro place hplace other hholds hlt target htarget later hlater hle rfl
    obtain ⟨s', hs', hcomesBelow⟩ := hbelow hplace hlt
    obtain ⟨s, hs, hcomesFrom⟩ := hfrom hlater hle
    have hpc : s.pc = later.pc := hcomesFrom.pc
    have hpc' : s'.pc = place.pc := hcomesBelow.pc
    have hunbranched := htail.unbranched s hs s' hs'
    rw [hpc, hpc', UInt16.lt_iff_toNat_lt] at hunbranched
    refine hunbranched (Nat.lt_of_lt_of_le hlt hle) ?_
    rwa [PassStep.targets, (hcomesBelow.becomes hholds).branchTargets]
  case handlers =>
    intro handler hhandler later hlater hle
    obtain ⟨s, hs, hcomesFrom⟩ := hfrom hlater hle
    rw [← hcomesFrom.pc]
    exact Premises.isHandler_eq_false.mp (htail.uncaught s hs) handler hhandler
  case frames =>
    intro frame hframe later hlater hle
    obtain ⟨s, hs, hcomesFrom⟩ := hfrom hlater hle
    rw [← hcomesFrom.pc]
    exact Premises.frameAt?_eq_none.mp (htail.unframed s hs) frame hframe

end Places

end ClassFile
