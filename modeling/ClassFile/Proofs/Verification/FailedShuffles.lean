import ClassFile.Proofs.Verification.SlotMachine

/-! What a stack instruction that fails leaves behind. It looks at the topmost items to choose its form, takes
the items of this form one by one, and then asks for room. What it has taken by the time it fails it does not
put back, so that it leaves the stack alone only if it fails before it takes the topmost item. -/

namespace ClassFile

open OperandStack

/-- The number of items that are wide or not as listed, up to the first one that is not. -/
def agreeing : List Bool → List Bool → Nat
  | wide :: widths, found :: rest => if found = wide then agreeing widths rest + 1 else 0
  | _, _ => 0

/-- Which items a form takes are wide, from the top. -/
def Shuffle.widths (form : Shuffle) : List Bool := form.group ++ form.below

/-- The form that an instruction tries on items that are wide or not as listed, if it gets to try one: some
instructions look at several items before they take any of them. -/
def ShuffleOp.attempt : ShuffleOp → List Bool → Option Shuffle
  | .pop, _ => some .pop
  | .dup, _ => some .dup
  | .dupX1, _ => some .dupX1
  | .swap, _ => some .swap
  | .pop2, wide :: _ => some (.pop2 (if wide then .oneWide else .twoNarrow))
  | .dup2, wide :: _ => some (.dup2 (if wide then .form2 else .form1))
  | .dup2X1, wide :: _ => some (.dup2X1 (if wide then .form2 else .form1))
  | .dupX2, false :: wide :: _ => some (.dupX2 (if wide then .form2 else .form1))
  | .dup2X2, true :: wide :: _ => some (.dup2X2 (if wide then .form4 else .form2))
  | .dup2X2, false :: false :: wide :: _ => some (.dup2X2 (if wide then .form3 else .form1))
  | _, _ => none

/-- The number of items that an instruction takes before it fails. -/
def ShuffleOp.lost (op : ShuffleOp) (items : List StackItem) : Nat :=
  match op.attempt (items.map StackItem.isWide) with
  | some form => agreeing form.widths (items.map StackItem.isWide)
  | none => 0

/-- An instruction turns items down, by which of them are wide, before it takes the topmost one. -/
def ShuffleOp.TurnsDown (op : ShuffleOp) (widths : List Bool) : Prop :=
  match op with
  | .pop | .dup | .dupX1 | .swap => widths.head? ≠ some false
  | .pop2 | .dup2 | .dup2X1 => widths = []
  | .dupX2 => widths.head? ≠ some false ∨ widths.length < 2
  | .dup2X2 => widths.length < 2 ∨ widths.head? = some false ∧ (widths[1]? = some true ∨ widths.length < 3)

theorem agreeing_append (widths rest : List Bool) : agreeing widths (widths ++ rest) = widths.length := by
  induction widths with
  | nil =>
      rw [agreeing]
      · rfl
      · exact nofun
  | cons wide widths ih => rw [List.cons_append, agreeing, if_pos rfl, ih, List.length_cons]

theorem agreeing_le (widths found : List Bool) : agreeing widths found ≤ found.length := by
  induction widths, found using agreeing.induct with
  | case1 widths found rest ih =>
      rw [agreeing, if_pos rfl]
      exact Nat.succ_le_succ ih
  | case2 wide widths found rest hwide =>
      rw [agreeing, if_neg hwide]
      exact Nat.zero_le _
  | case3 widths found hnone =>
      rw [agreeing]
      · exact Nat.zero_le _
      · exact hnone

namespace OperandStack

variable {high low stack after : OperandStack} {fault : CodeFault} {widths : List Bool}

theorem Carries.drop {n : Nat} (h : high.Carries (high.items.take n) low) :
    low.items = high.items.drop n := by
  have hboth : high.items.take n ++ low.items = high.items.take n ++ high.items.drop n := by
    rw [← h.items, List.take_append_drop]
  exact List.append_cancel_left hboth

/-- Items that are taken until one is not as listed stay away. -/
theorem popAll_error (h : stack.Sound) (hrun : popAll widths stack = .error fault after) :
    stack.Carries (stack.items.take (agreeing widths (stack.items.map StackItem.isWide))) after := by
  induction widths generalizing stack with
  | nil => cases hrun
  | cons wide rest ih =>
      cases hitems : stack.items with
      | nil =>
          have hnone : popWidth wide stack = .error .underflow stack := by
            cases wide <;> exact popIf_nil hitems _ _
          rcases bind_run_error.mp hrun with hfirst | ⟨_, _, hfirst, _⟩
          · rw [hnone] at hfirst
            cases hfirst
            exact .refl h
          · rw [hnone] at hfirst
            cases hfirst
      | cons item below =>
          have hcons := popWidth_cons hitems wide
          rw [List.map_cons, agreeing]
          rcases bind_run_error.mp hrun with hfirst | ⟨top, between, hfirst, hrest⟩
          · split at hcons
            · rw [hcons] at hfirst
              cases hfirst
            · rename_i hwide
              obtain ⟨fault', hfault⟩ := hcons
              rw [hfault] at hfirst
              cases hfirst
              rw [if_neg hwide]
              exact .refl h
          · obtain ⟨hwide, hcarries⟩ := popWidth_ok h hfirst
            have hsame := hcarries.items
            rw [hitems, List.singleton_append, List.cons.injEq] at hsame
            obtain ⟨rfl, hbelow⟩ := hsame
            rcases bind_run_error.mp hrest with hothers | ⟨_, _, _, hpure⟩
            · rw [if_pos hwide, List.take_succ_cons, hbelow]
              exact hcarries.trans (ih hcarries.low hothers)
            · cases hpure

theorem popAll_append (front more : List Bool) : popAll (front ++ more) = (do
    let items ← popAll front
    let others ← popAll more
    return items ++ others) := by
  induction front with
  | nil => simp [popAll]
  | cons wide front ih => simp [popAll, ih]

theorem reserve_run (slots : UInt16) (stack : OperandStack) :
    reserve slots stack =
      if stack.maxStack.toNat < stack.depth.toNat + slots.toNat then .error (.overflow stack.maxStack) stack
      else .ok () stack := by
  rw [reserve, get_bind_run]
  split <;> rfl

end OperandStack

section Failing

variable {stack after : OperandStack} {fault : CodeFault} {op : ShuffleOp} {form : Shuffle}

theorem ShuffleOp.toNat_slotsPut (op : ShuffleOp) : (UInt16.ofNat op.slotsPut).toNat = op.slotsPut := by
  cases op <;> rfl

theorem ShuffleOp.checkRoom_error (hrun : op.checkRoom stack = .error fault after) : after = stack := by
  have hcopies (h : reserve (UInt16.ofNat op.slotsPut) stack = .error fault after) : after = stack := by
    rw [reserve_run] at h
    split at h <;> cases h
    rfl
  cases op with
  | pop | pop2 | swap => cases hrun
  | _ => exact hcopies hrun

/-- Room is asked for by the instructions that put more back than they take. -/
theorem ShuffleOp.room_of_checkRoom (hrun : op.checkRoom stack = .ok () after) :
    op.slotsPut ≤ op.moved + op.passed ∨ stack.depth.toNat + op.slotsPut ≤ stack.maxStack.toNat := by
  have hcopies (h : reserve (UInt16.ofNat op.slotsPut) stack = .ok () after) :
      stack.depth.toNat + op.slotsPut ≤ stack.maxStack.toNat := by
    rw [reserve_run, op.toNat_slotsPut] at h
    split at h
    · cases h
    · rename_i hroom
      exact Nat.not_lt.mp hroom
  cases op with
  | pop | pop2 | swap => exact .inl (by decide)
  | _ => exact .inr (hcopies hrun)

/-- The slots that a form puts back are those of its items as they are rearranged. -/
theorem Shuffle.slotsOf_rearrange {group below : List StackItem}
    (hgroup : group.map StackItem.isWide = form.group) (hbelow : below.map StackItem.isWide = form.below) :
    OperandStack.slotsOf (form.op.rearrange group below) = form.op.slotsPut := by
  obtain ⟨hmoved, hpassed⟩ := form.slotsOfWidths_groups
  rw [← hgroup, StackSlot.slotsOfWidths_map] at hmoved
  rw [← hbelow, StackSlot.slotsOfWidths_map] at hpassed
  rw [← StackSlot.length_ofItems, ShuffleOp.ofItems_rearrange, ShuffleOp.length_rearrange hmoved hpassed]

/-- Once the items are taken and room was asked for, there is room for what is put back. -/
theorem Shuffle.room {group below : List StackItem} {asked : OperandStack}
    (hgroup : group.map StackItem.isWide = form.group) (hbelow : below.map StackItem.isWide = form.below)
    (h : stack.Carries (group ++ below) after) (hroom : form.op.checkRoom after = .ok () asked) :
    after.depth.toNat + OperandStack.slotsOf (form.op.rearrange group below) ≤ after.maxStack.toNat := by
  rw [Shuffle.slotsOf_rearrange hgroup hbelow]
  rcases ShuffleOp.room_of_checkRoom hroom with hput | hfree
  · obtain ⟨hmoved, hpassed⟩ := form.slotsOfWidths_groups
    rw [← hgroup, StackSlot.slotsOfWidths_map, StackSlot.length_ofItems] at hmoved
    rw [← hbelow, StackSlot.slotsOfWidths_map, StackSlot.length_ofItems] at hpassed
    have hdepth := h.high.depth
    rw [h.items, slotsOf_append, slotsOf_append, hmoved, hpassed, h.low.depth] at hdepth
    have hlimit := h.high.limit
    rw [h.maxStack] at hlimit
    omega
  · exact hfree

/-- An exchange that fails leaves the stack without the items that it has taken. -/
theorem Shuffle.exchange_error (h : stack.Sound) (hrun : form.exchange stack = .error fault after) :
    stack.Carries (stack.items.take (agreeing form.widths (stack.items.map StackItem.isWide))) after := by
  have hpops (h' : popAll form.widths stack = .error fault after) := popAll_error h h'
  rw [Shuffle.widths, popAll_append] at hpops
  rcases bind_run_error.mp hrun with hfails | ⟨group, between, hgroup, hothers⟩
  · exact hpops (bind_run_error.mpr (.inl hfails))
  rcases bind_run_error.mp hothers with hfails | ⟨below, taken, hbelow, hputs⟩
  · exact hpops (bind_run_error.mpr (.inr ⟨group, between, hgroup, bind_run_error.mpr (.inl hfails)⟩))
  -- all items of the form are taken, so that only the question for room can fail
  obtain ⟨hwidths, hupper⟩ := popAll_ok h hgroup
  obtain ⟨hwidths', hlower⟩ := popAll_ok hupper.low hbelow
  have hcarries := hupper.trans hlower
  have htaken : after = taken := by
    rcases bind_run_error.mp hputs with hfails | ⟨_, asked, hroom, hpush⟩
    · exact ShuffleOp.checkRoom_error hfails
    obtain rfl := ShuffleOp.checkRoom_ok hroom
    have hfree := Shuffle.room hwidths hwidths' hcarries hroom
    rw [← slotsOf_reverse] at hfree
    obtain ⟨pushed, hpushed⟩ := pushAllReserved_run hcarries.low hfree
    rcases bind_run_error.mp hpush with hfails | ⟨_, _, _, hpure⟩
    · rw [hpushed] at hfails
      cases hfails
    · cases hpure
  rw [htaken, hcarries.items, List.map_append, List.map_append, hwidths, hwidths', ← Shuffle.widths,
    agreeing_append, Shuffle.widths, ← hwidths, ← hwidths', ← List.map_append, List.length_map,
    List.take_left]
  exact hcarries

theorem run_of_noPeek {α : Type} {n : Nat} (h : stack.items[n]? = none) (next : StackItem → StackOp α) :
    (peekAt n >>= next) stack = .error .underflow stack := by
  have hpeek : peekAt n stack = .error .underflow stack := by
    rw [peekAt, get_bind_run, h]
    rfl
  change EStateM.bind (peekAt n) next stack = _
  rw [EStateM.bind, hpeek]

theorem ShuffleOp.run_attempt (op : ShuffleOp) (stack : OperandStack) :
    match op.attempt (stack.items.map StackItem.isWide) with
    | some form => op.run stack = form.exchange stack
    | none => ∃ fault, op.run stack = .error fault stack := by
  obtain ⟨items, depth, maxStack, popped, pushed⟩ := stack
  cases op with
  | pop => exact congrFun run_pop _
  | dup => exact congrFun run_dup _
  | dupX1 => exact congrFun run_dupX1 _
  | swap => exact congrFun run_swap _
  | pop2 | dup2 | dup2X1 =>
      simp only [run_pop2, run_dup2, run_dup2X1, peek]
      cases items with
      | nil => exact ⟨_, run_of_noPeek rfl _⟩
      | cons top rest =>
          rw [run_of_peek rfl, List.map_cons]
          cases top.isWide <;> rfl
  | dupX2 =>
      rw [run_dupX2, peek]
      cases items with
      | nil => exact ⟨_, run_of_noPeek rfl _⟩
      | cons top below =>
          rw [run_of_peek rfl, List.map_cons]
          cases top.isWide with
          | true => exact ⟨_, rfl⟩
          | false =>
              rw [if_neg Bool.false_ne_true]
              cases below with
              | nil => exact ⟨_, run_of_noPeek rfl _⟩
              | cons second rest =>
                  rw [run_of_peek rfl, List.map_cons]
                  cases second.isWide <;> rfl
  | dup2X2 =>
      rw [run_dup2X2, peek]
      cases items with
      | nil => exact ⟨_, run_of_noPeek rfl _⟩
      | cons top below =>
          rw [run_of_peek rfl, List.map_cons]
          cases below with
          | nil => cases top.isWide <;> exact ⟨_, run_of_noPeek rfl _⟩
          | cons second deeper =>
              rw [List.map_cons]
              cases top.isWide with
              | true =>
                  rw [if_pos rfl, run_of_peek rfl]
                  cases second.isWide <;> rfl
              | false =>
                  rw [if_neg Bool.false_ne_true, run_of_peek rfl]
                  cases second.isWide with
                  | true => exact ⟨_, rfl⟩
                  | false =>
                      rw [if_neg Bool.false_ne_true]
                      cases deeper with
                      | nil => exact ⟨_, run_of_noPeek rfl _⟩
                      | cons third rest =>
                          rw [run_of_peek rfl, List.map_cons]
                          cases third.isWide <;> rfl

theorem ShuffleOp.lost_eq_zero {items : List StackItem} :
    op.lost items = 0 ↔ op.TurnsDown (items.map StackItem.isWide) := by
  generalize hwidths : items.map StackItem.isWide = widths
  rw [lost, hwidths]
  cases op with
  | pop | dup | dupX1 | swap =>
      rcases widths with _ | ⟨_ | _, rest⟩ <;>
        simp [attempt, TurnsDown, agreeing, Shuffle.widths, Shuffle.group]
  | pop2 | dup2 | dup2X1 =>
      rcases widths with _ | ⟨_ | _, rest⟩ <;>
        simp [attempt, TurnsDown, agreeing, Shuffle.widths, Shuffle.group]
  | dupX2 =>
      rcases widths with _ | ⟨_ | _, _ | ⟨_ | _, rest⟩⟩ <;>
        simp [attempt, TurnsDown, agreeing, Shuffle.widths, Shuffle.group]
  | dup2X2 =>
      rcases widths with _ | ⟨_ | _, _ | ⟨_ | _, _ | ⟨_ | _, rest⟩⟩⟩ <;>
        simp [attempt, TurnsDown, agreeing, Shuffle.widths, Shuffle.group]

theorem ShuffleOp.lost_le (op : ShuffleOp) (items : List StackItem) : op.lost items ≤ items.length := by
  unfold lost
  split
  · rw [← List.length_map StackItem.isWide]
    exact agreeing_le _ _
  · exact Nat.zero_le _

theorem ShuffleOp.carries_of_error (h : stack.Sound) (hrun : op.run stack = .error fault after) :
    stack.Carries (stack.items.take (op.lost stack.items)) after := by
  have hattempt := op.run_attempt stack
  unfold lost
  split at hattempt
  · rw [hattempt] at hrun
    exact Shuffle.exchange_error h hrun
  · obtain ⟨fault', hnone⟩ := hattempt
    rw [hnone] at hrun
    cases hrun
    exact .refl h

/-- A stack instruction that fails on a sound stack has dropped the items that it took before it found what is
wrong. It leaves the items and the depth as they were if and only if it turned the items down before it took
the topmost one. -/
theorem ShuffleOp.failed_run_drops (h : stack.Sound) (hrun : op.run stack = .error fault after) :
    after.items = stack.items.drop (op.lost stack.items) ∧ after.Sound ∧ after.maxStack = stack.maxStack ∧
      (after.items = stack.items ∧ after.depth = stack.depth ↔
        op.TurnsDown (stack.items.map StackItem.isWide)) := by
  have hcarries := carries_of_error h hrun
  have hitems := hcarries.drop
  refine ⟨hitems, hcarries.low, hcarries.maxStack.symm, ?_⟩
  rw [← lost_eq_zero]
  constructor
  · rintro ⟨hsame, -⟩
    have hle := op.lost_le stack.items
    rw [hitems] at hsame
    have hlength := congrArg List.length hsame
    rw [List.length_drop] at hlength
    omega
  · intro hnone
    rw [hnone, List.drop_zero] at hitems
    refine ⟨hitems, UInt16.toNat_inj.mp ?_⟩
    rw [← hcarries.low.depth, ← h.depth, hitems]

/-- A narrow value on a stack that has no room for another one. -/
def fullSlot : OperandStack where
  items := [.numeric .int ⟨0, .constant⟩]
  depth := 1
  maxStack := 1
  popped := 0
  pushed := 0

/-- The value that was to be copied is gone. -/
theorem ShuffleOp.fullSlot_emptied : fullSlot.Sound ∧
    ∃ after, ShuffleOp.dup.run fullSlot = .error (.overflow 1) after ∧ after.items = [] ∧
      ¬ (after.items = fullSlot.items ∧ after.depth = fullSlot.depth) := by
  have hsound : fullSlot.Sound := ⟨by decide, by decide⟩
  have hrun : ∃ after, ShuffleOp.dup.run fullSlot = .error (.overflow 1) after := ⟨_, rfl⟩
  obtain ⟨after, hrun⟩ := hrun
  obtain ⟨hitems, -, -, hsame⟩ := failed_run_drops hsound hrun
  have hturned : ¬ ShuffleOp.dup.TurnsDown (fullSlot.items.map StackItem.isWide) := fun h => h rfl
  exact ⟨hsound, after, hrun, hitems, mt hsame.mp hturned⟩

end Failing

end ClassFile
