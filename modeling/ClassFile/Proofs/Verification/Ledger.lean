import ClassFile.Proofs.Verification.Exchange

/-! The operations on operand stacks, in any order and however they end. A ledger keeps beside a stack what
its counters can't hold: how many slots were popped and pushed since counting was started, as numbers
without bound. As long as these fit into sixteen bits the counters agree with them. -/

namespace ClassFile

/-- The operations on an operand stack, with their arguments. -/
inductive StackCommand where
  | pop
  | popNarrow
  | popWide
  | popNumeric (category : Category)
  | popReference
  | popValue (category : Category)
  | push (item : StackItem)
  | pushReserved (item : StackItem)
  | reserve (slots : UInt16)
  | replaceWith (items : List StackItem)
  | merge (other : List StackItem)
  | pop2
  | dup
  | dupX1
  | dupX2
  | dup2
  | dup2X1
  | dup2X2
  | swap
  | beginInstruction

namespace StackCommand

def run : StackCommand → StackOp Unit
  | .pop => discard OperandStack.pop
  | .popNarrow => discard OperandStack.popNarrow
  | .popWide => discard OperandStack.popWide
  | .popNumeric category => discard (OperandStack.popNumeric category)
  | .popReference => discard OperandStack.popReference
  | .popValue category => discard (OperandStack.popValue category)
  | .push item => OperandStack.push item
  | .pushReserved item => OperandStack.pushReserved item
  | .reserve slots => OperandStack.reserve slots
  | .replaceWith items => OperandStack.replaceWith items
  | .merge other => OperandStack.merge other
  | .pop2 => discard OperandStack.pop2
  | .dup => OperandStack.dup
  | .dupX1 => OperandStack.dupX1
  | .dupX2 => discard OperandStack.dupX2
  | .dup2 => discard OperandStack.dup2
  | .dup2X1 => discard OperandStack.dup2X1
  | .dup2X2 => discard OperandStack.dup2X2
  | .swap => OperandStack.swap
  | .beginInstruction => modify OperandStack.beginInstruction

/-- The stack after an operation, also if it failed. -/
def after (c : StackCommand) (stack : OperandStack) : OperandStack :=
  match c.run stack with
  | .ok _ stack => stack
  | .error _ stack => stack

/-- Whether an operation does its part by taking items and putting others, if any. -/
def exchanges : StackCommand → Bool
  | .replaceWith _ | .beginInstruction => false
  | _ => true

end StackCommand

/-- A stack, its depth when counting was started, and the slots that were popped and pushed since then.
`replaced` says whether the items were replaced since then. -/
structure Ledger where
  stack : OperandStack
  start : Nat
  popped : Nat
  pushed : Nat
  replaced : Bool

namespace Ledger

def empty (maxStack : UInt16) : Ledger := ⟨.empty maxStack, 0, 0, 0, false⟩

/-- The ledger after another operation. -/
def record (l : Ledger) (c : StackCommand) : Ledger :=
  let stack := c.after l.stack
  match c with
  | .beginInstruction => ⟨stack, stack.depth.toNat, 0, 0, false⟩
  | .replaceWith _ => { l with stack, replaced := true }
  | _ =>
    { l with
      stack
      popped := l.popped + (stack.popped - l.stack.popped).toNat
      pushed := l.pushed + (stack.pushed - l.stack.pushed).toNat }

def recordAll (l : Ledger) (commands : List StackCommand) : Ledger := commands.foldl record l

end Ledger

namespace OperandStack

/-- A stack comes from another one by some exchange. -/
def Exchanging (start now : OperandStack) : Prop := ∃ taken put, Exchanged start taken put now

theorem exchanging_pushReserved {stack : OperandStack} (item : StackItem) :
    Yields (Exchanged stack [] []) (pushReserved item) (fun _ => Exchanging stack)
      (fun _ => Exchanging stack) := by
  intro now hnow
  have hpush := yields_push item now hnow
  unfold pushReserved
  cases hrun : push item now with
  | ok _ after =>
      rw [hrun] at hpush
      exact ⟨_, _, hpush⟩
  | error fault after =>
      rw [hrun] at hpush
      exact hpush.2

end OperandStack

namespace StackCommand

open OperandStack

/-- An operation that fails leaves an exchange too. -/
theorem exchanging_run {stack : OperandStack} (h : stack.Sound) {c : StackCommand}
    (hc : c.exchanges = true) :
    Yields (Exchanged stack [] []) c.run (fun _ => Exchanging stack) (fun _ => Exchanging stack) := by
  have settled {α : Type} {op : StackOp α} {n m : Nat}
      (hop : Yields (Exchanged stack [] []) op (fun _ => Moved stack n m) (Settled stack)) :
      Yields (Exchanged stack [] []) op (fun _ => Exchanging stack) (fun _ => Exchanging stack) :=
    hop.mono (fun _ h => h) (fun _ _ ⟨taken, put, h, _⟩ => ⟨taken, put, h⟩) fun _ _ h => h.2
  have taking (expected : Subject) (accepts : StackItem → Bool) :
      Yields (Exchanged stack [] []) (popIf expected accepts) (fun _ => Exchanging stack)
        (fun _ => Exchanging stack) :=
    (yields_popIf expected accepts).mono (fun _ h => h) (fun _ _ h => ⟨_, _, h.2⟩) fun _ _ h => h.2
  cases c with
  | pop =>
      exact .discard (yields_pop.mono (fun _ h => h) (fun _ _ h => ⟨_, _, h⟩) fun _ _ h => h.2)
  | popNarrow => exact .discard (taking _ _)
  | popWide => exact .discard (taking _ _)
  | popNumeric category => exact .discard (taking _ _)
  | popReference => exact .discard (taking _ _)
  | popValue category => cases category <;> exact .discard (taking _ _)
  | push item =>
      exact (yields_push item).mono (fun _ h => h) (fun _ _ h => ⟨_, _, h⟩) fun _ _ h => h.2
  | pushReserved item => exact exchanging_pushReserved item
  | reserve slots =>
      exact (yields_reserve slots).mono (fun _ h => h) (fun _ _ h => ⟨_, _, h.1⟩) fun _ _ h => h.2
  | replaceWith items => cases hc
  | merge other =>
      exact (yields_merge other).mono (fun _ h => h) (fun _ _ h => ⟨_, _, h⟩) fun _ _ h => h.2
  | pop2 => exact .discard (settled moves_pop2)
  | dup => exact settled moves_dup
  | dupX1 => exact settled moves_dupX1
  | dupX2 => exact .discard (settled moves_dupX2)
  | dup2 => exact .discard (settled moves_dup2)
  | dup2X1 => exact .discard (settled moves_dup2X1)
  | dup2X2 => exact .discard (settled moves_dup2X2)
  | swap => exact settled (moves_swap h)
  | beginInstruction => cases hc

theorem exchanging_after {stack : OperandStack} (h : stack.Sound) {c : StackCommand}
    (hc : c.exchanges = true) : Exchanging stack (c.after stack) := by
  have hrun := exchanging_run h hc stack (.refl h)
  unfold after
  cases hresult : c.run stack with
  | ok _ now =>
      rw [hresult] at hrun
      exact hrun
  | error _ now =>
      rw [hresult] at hrun
      exact hrun

theorem replaceWith_after (items : List StackItem) (stack : OperandStack) :
    (replaceWith items).after stack =
      if stack.maxStack.toNat < OperandStack.slotsOf items then stack
      else { stack with items, depth := UInt16.ofNat (OperandStack.slotsOf items) } := by
  unfold after
  rw [run, replaceWith_run]
  by_cases hroom : stack.maxStack.toNat < OperandStack.slotsOf items
  · rw [if_pos hroom, if_pos hroom]
  · rw [if_neg hroom, if_neg hroom]

theorem sound_replaceWith {stack : OperandStack} (h : stack.Sound) (items : List StackItem) :
    ((replaceWith items).after stack).Sound := by
  rw [replaceWith_after]
  split
  · exact h
  · rename_i hroom
    exact sound_replaced (Nat.le_of_not_lt hroom)

end StackCommand

namespace Ledger

open OperandStack

/-- The invariant of ledgers. The counters are the numbers as sixteen bit words. -/
structure Balanced (maxStack : UInt16) (l : Ledger) : Prop where
  sound : l.stack.Sound
  maxStack : l.stack.maxStack = maxStack
  popped : l.stack.popped = UInt16.ofNat l.popped
  pushed : l.stack.pushed = UInt16.ofNat l.pushed
  depth : l.replaced = false → l.start + l.pushed = l.stack.depth.toNat + l.popped

variable {maxStack : UInt16} {l : Ledger}

theorem balanced_empty : (empty maxStack).Balanced maxStack :=
  ⟨sound_empty maxStack, rfl, rfl, rfl, fun _ => rfl⟩

theorem record_eq {c : StackCommand} (hc : c.exchanges = true) :
    l.record c =
      { l with
        stack := c.after l.stack
        popped := l.popped + ((c.after l.stack).popped - l.stack.popped).toNat
        pushed := l.pushed + ((c.after l.stack).pushed - l.stack.pushed).toNat } := by
  cases c <;> first | rfl | cases hc

/-- The counters moved on by the slots of the items that an operation took and put, which are never so
many that this is not seen. -/
theorem exists_exchange (h : l.stack.Sound) {c : StackCommand} (hc : c.exchanges = true) :
    ∃ taken put, Exchanged l.stack taken put (c.after l.stack) ∧
      (l.record c).popped = l.popped + Category.slots taken ∧
      (l.record c).pushed = l.pushed + Category.slots put := by
  obtain ⟨taken, put, hexchanged⟩ := StackCommand.exchanging_after h hc
  have htaken := Nat.lt_of_le_of_lt (hexchanged.taken_le h) l.stack.depth.toNat_lt
  have hput := Nat.lt_of_le_of_lt hexchanged.put_le (c.after l.stack).depth.toNat_lt
  refine ⟨taken, put, hexchanged, ?_, ?_⟩
  · rw [record_eq hc, hexchanged.popped, UInt16.add_comm, UInt16.add_sub_cancel,
      UInt16.toNat_ofNat_of_lt' htaken]
  · rw [record_eq hc, hexchanged.pushed, UInt16.add_comm, UInt16.add_sub_cancel,
      UInt16.toNat_ofNat_of_lt' hput]

theorem Balanced.record (h : l.Balanced maxStack) (c : StackCommand) :
    (l.record c).Balanced maxStack := by
  cases hc : c.exchanges with
  | true =>
      obtain ⟨taken, put, hexchanged, hpopped, hpushed⟩ := exists_exchange h.sound hc
      have hstack : (l.record c).stack = c.after l.stack := by rw [record_eq hc]
      have hstart : (l.record c).start = l.start := by rw [record_eq hc]
      have hreplaced : (l.record c).replaced = l.replaced := by rw [record_eq hc]
      refine ⟨hstack ▸ hexchanged.sound, ?_, ?_, ?_, ?_⟩
      · rw [hstack, hexchanged.maxStack, h.maxStack]
      · rw [hstack, hexchanged.popped, hpopped, h.popped, UInt16.ofNat_add]
      · rw [hstack, hexchanged.pushed, hpushed, h.pushed, UInt16.ofNat_add]
      · intro hnot
        have hbefore := h.depth (hreplaced ▸ hnot)
        have hbalance := hexchanged.balance h.sound
        rw [hstack, hstart, hpopped, hpushed]
        omega
  | false =>
      cases c with
      | replaceWith items =>
          have hstack := StackCommand.replaceWith_after items l.stack
          have hsound := StackCommand.sound_replaceWith h.sound items
          refine ⟨hsound, ?_, ?_, ?_, nofun⟩
          · change (StackCommand.after _ _).maxStack = maxStack
            rw [hstack, ← h.maxStack]
            split <;> rfl
          · change (StackCommand.after _ _).popped = UInt16.ofNat l.popped
            rw [hstack, ← h.popped]
            split <;> rfl
          · change (StackCommand.after _ _).pushed = UInt16.ofNat l.pushed
            rw [hstack, ← h.pushed]
            split <;> rfl
      | beginInstruction =>
          exact ⟨⟨h.sound.depth, h.sound.limit⟩, h.maxStack, rfl, rfl, fun _ => rfl⟩
      | _ => cases hc

theorem Balanced.recordAll (h : l.Balanced maxStack) (commands : List StackCommand) :
    (l.recordAll commands).Balanced maxStack := by
  induction commands generalizing l with
  | nil => exact h
  | cons c rest ih => exact ih (h.record c)

/-- After any operations on a new stack, the depth is the number of slots that the items take, and within
the limit. Each further operation that doesn't replace the items moves the counters on by the slots of
the items that it takes and puts. As long as the numbers of slots fit into the counters and the items
were not replaced, the depth at the beginning and the counters make up the depth now, and the effect
that is reported is what happened. -/
theorem recordAll_accounts (maxStack : UInt16) (commands : List StackCommand) :
    let l := (Ledger.empty maxStack).recordAll commands
    Category.slots (l.stack.items.map StackItem.category) = l.stack.depth.toNat ∧
      l.stack.maxStack = maxStack ∧ l.stack.depth ≤ maxStack ∧
      (∀ c : StackCommand, c.exchanges = true →
        ∃ taken put, Exchanged l.stack taken put (c.after l.stack) ∧
          (l.record c).popped = l.popped + Category.slots taken ∧
          (l.record c).pushed = l.pushed + Category.slots put) ∧
      (l.replaced = false → l.popped < 65536 → l.pushed < 65536 →
        l.stack.popped.toNat = l.popped ∧ l.stack.pushed.toNat = l.pushed ∧
          l.start + l.stack.pushed.toNat = l.stack.depth.toNat + l.stack.popped.toNat ∧
          l.stack.effect =
            if l.popped = 0 ∧ l.pushed = 0 then .unchanged
            else .changed (UInt16.ofNat l.popped) (UInt16.ofNat l.pushed)) := by
  intro l
  have h : l.Balanced maxStack := balanced_empty.recordAll commands
  refine ⟨?_, h.maxStack, ?_, fun c hc => exists_exchange h.sound hc, ?_⟩
  · rw [← h.sound.depth, slotsOf_eq]
  · rw [UInt16.le_iff_toNat_le, ← h.maxStack]
    exact h.sound.limit
  · intro hreplaced hpopped hpushed
    have hpopped' : l.stack.popped.toNat = l.popped := by
      rw [h.popped, UInt16.toNat_ofNat_of_lt' hpopped]
    have hpushed' : l.stack.pushed.toNat = l.pushed := by
      rw [h.pushed, UInt16.toNat_ofNat_of_lt' hpushed]
    refine ⟨hpopped', hpushed', ?_, ?_⟩
    · rw [hpopped', hpushed']
      exact h.depth hreplaced
    · have hzero : (l.stack.popped = 0 ∧ l.stack.pushed = 0) ↔ l.popped = 0 ∧ l.pushed = 0 := by
        rw [← hpopped', ← hpushed', ← UInt16.toNat_inj, ← UInt16.toNat_inj]
        rfl
      rw [effect, ← h.popped, ← h.pushed]
      simp only [hzero]

/-- Two numbers, of which the upper one is copied below the other one; another copy fails for want of room
after it took its item. -/
def failingCopy : Ledger :=
  let number : StackItem := .numeric .int ⟨0, .constant⟩
  (empty 3).recordAll [.push number, .push number, .beginInstruction, .dupX1, .dup]

theorem failingCopy_accounts :
    failingCopy.popped = 3 ∧ failingCopy.pushed = 3 ∧
      failingCopy.start + failingCopy.stack.pushed.toNat =
        failingCopy.stack.depth.toNat + failingCopy.stack.popped.toNat ∧
      failingCopy.stack.effect = .changed 3 3 ∧
      ∃ taken put, Exchanged failingCopy.stack taken put (StackCommand.swap.after failingCopy.stack) ∧
        (failingCopy.record .swap).popped = 3 + Category.slots taken ∧
        (failingCopy.record .swap).pushed = 3 + Category.slots put := by
  have hpopped : failingCopy.popped = 3 := by decide
  have hpushed : failingCopy.pushed = 3 := by decide
  obtain ⟨_, _, _, hexchange, hcounters⟩ := recordAll_accounts 3
    (let number : StackItem := .numeric .int ⟨0, .constant⟩
     [.push number, .push number, .beginInstruction, .dupX1, .dup])
  obtain ⟨_, _, hdepth, heffect⟩ := hcounters (by decide) (by decide) (by decide)
  exact ⟨hpopped, hpushed, hdepth, heffect, hexchange .swap rfl⟩

end Ledger

end ClassFile
