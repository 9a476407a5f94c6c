import ClassFile.Proofs.Verification.Effects
import ClassFile.Proofs.Verification.Exchange

/-! The stack instructions on a machine without types. To such a machine a stack is a list of slots, of which
a wide item has two, and a stack instruction moves the topmost slots whatever they hold. The typed
instructions have a form for each way in which items can fill the slots that are moved. They do on slots what
the machine without types does, and refuse a stack only if there are too few slots, if an item would be cut
in two or if there is no room. -/

namespace ClassFile

/-- A slot of an operand stack: all of a narrow item, or a half of a wide one. -/
inductive StackSlot where
  | whole (item : StackItem)
  | upper (item : StackItem)
  | lower (item : StackItem)
  deriving DecidableEq

/-- The slots that an item takes, the topmost one first. -/
def StackItem.slots (item : StackItem) : List StackSlot :=
  if item.isWide then [.upper item, .lower item] else [.whole item]

/-- The slots that items take, those of the topmost item first. -/
def StackSlot.ofItems (items : List StackItem) : List StackSlot := items.flatMap StackItem.slots

/-- The slots that an operand stack takes, the topmost one first. -/
def OperandStack.slots (stack : OperandStack) : List StackSlot := StackSlot.ofItems stack.items

/-- The boundary below a number of slots cuts a wide item in two. -/
def StackSlot.CutAt (slots : List StackSlot) (n : Nat) : Prop := ∃ item, slots[n]? = some (.lower item)

/-- The slots that items take which are wide or not. -/
def slotsOfWidths : List Bool → Nat
  | [] => 0
  | wide :: rest => (if wide then 2 else 1) + slotsOfWidths rest

namespace StackItem

variable {item : StackItem}

theorem slots_narrow (h : item.isWide = false) : item.slots = [.whole item] := by
  rw [slots, h, if_neg Bool.false_ne_true]

theorem slots_wide (h : item.isWide = true) : item.slots = [.upper item, .lower item] := by
  rw [slots, if_pos h]

theorem length_slots (item : StackItem) : item.slots.length = if item.isWide then 2 else 1 := by
  unfold slots
  split <;> rfl

theorem toNat_size (item : StackItem) : item.size.toNat = item.slots.length := by
  rw [length_slots, size, Category.size, ← isWide]
  split <;> rfl

end StackItem

namespace StackSlot

variable {items : List StackItem}

theorem ofItems_cons (item : StackItem) (items : List StackItem) :
    ofItems (item :: items) = item.slots ++ ofItems items := List.flatMap_cons

theorem ofItems_append (front back : List StackItem) :
    ofItems (front ++ back) = ofItems front ++ ofItems back := List.flatMap_append

theorem length_ofItems (items : List StackItem) :
    (ofItems items).length = OperandStack.slotsOf items := by
  induction items with
  | nil => rfl
  | cons item rest ih =>
      rw [ofItems_cons, List.length_append, ← StackItem.toNat_size, ih]
      rfl

theorem slotsOfWidths_map (items : List StackItem) :
    slotsOfWidths (items.map StackItem.isWide) = (ofItems items).length := by
  induction items with
  | nil => rfl
  | cons item rest ih =>
      rw [ofItems_cons, List.length_append, StackItem.length_slots, ← ih]
      rfl

/-- The topmost slot is never the lower half of an item. -/
theorem not_cutAt_zero (items : List StackItem) : ¬ CutAt (ofItems items) 0 := by
  rintro ⟨cut, hcut⟩
  cases items with
  | nil => cases hcut
  | cons item rest =>
      rw [ofItems_cons] at hcut
      cases h : item.isWide with
      | true =>
          rw [StackItem.slots_wide h] at hcut
          cases hcut
      | false =>
          rw [StackItem.slots_narrow h] at hcut
          cases hcut

theorem cutAt_append {front back : List StackSlot} {n : Nat} :
    CutAt (front ++ back) (front.length + n) ↔ CutAt back n := by
  simp only [CutAt, List.getElem?_append_right (Nat.le_add_right ..), Nat.add_sub_cancel_left]

/-- A boundary that exists and cuts no item lies between two items. -/
theorem exists_group_iff {n : Nat} :
    (n ≤ (ofItems items).length ∧ ¬ CutAt (ofItems items) n) ↔
      ∃ group rest, items = group ++ rest ∧ (ofItems group).length = n := by
  constructor
  · rintro ⟨hn, hcut⟩
    induction items generalizing n with
    | nil =>
        have hzero : n = 0 := Nat.le_zero.mp hn
        exact ⟨[], [], rfl, hzero.symm⟩
    | cons item rest ih =>
        rw [ofItems_cons] at hn hcut
        by_cases hfits : item.slots.length ≤ n
        · obtain ⟨more, rfl⟩ := Nat.exists_eq_add_of_le hfits
          rw [List.length_append] at hn
          rw [cutAt_append] at hcut
          obtain ⟨group, behind, rfl, rfl⟩ := ih (Nat.le_of_add_le_add_left hn) hcut
          refine ⟨item :: group, behind, rfl, ?_⟩
          rw [ofItems_cons, List.length_append]
        · -- the boundary lies above the topmost item, or in the middle of it
          have hzero : n = 0 := by
            cases h : item.isWide with
            | true =>
                rw [StackItem.slots_wide h] at hfits hcut
                have hnot : n ≠ 1 := by
                  rintro rfl
                  exact hcut ⟨item, rfl⟩
                rw [List.length_cons, List.length_singleton] at hfits
                omega
            | false =>
                rw [StackItem.slots_narrow h, List.length_singleton] at hfits
                omega
          exact ⟨[], item :: rest, rfl, hzero.symm⟩
  · rintro ⟨group, rest, rfl, rfl⟩
    have hcut : ¬ CutAt (ofItems group ++ ofItems rest) ((ofItems group).length + 0) :=
      mt cutAt_append.mp (not_cutAt_zero rest)
    rw [ofItems_append, List.length_append]
    exact ⟨Nat.le_add_right _ _, hcut⟩

end StackSlot

/-- The ways in which items fill a number of slots, by which of them are wide. -/
def fillings : Nat → List (List Bool)
  | 0 => [[]]
  | 1 => [[false]]
  | n + 2 => (fillings (n + 1)).map (false :: ·) ++ (fillings n).map (true :: ·)

theorem slotsOfWidths_eq_zero {widths : List Bool} : slotsOfWidths widths = 0 ↔ widths = [] := by
  cases widths with
  | nil => exact iff_of_true rfl rfl
  | cons wide rest => cases wide <;> simp [slotsOfWidths]

theorem mem_fillings {widths : List Bool} {n : Nat} :
    widths ∈ fillings n ↔ slotsOfWidths widths = n := by
  induction n using fillings.induct generalizing widths with
  | case1 => rw [fillings, List.mem_singleton, slotsOfWidths_eq_zero]
  | case2 =>
      rw [fillings, List.mem_singleton]
      match widths with
      | [] => simp [slotsOfWidths]
      | true :: rest =>
          have htwo : 2 + slotsOfWidths rest ≠ 1 := by omega
          simp [slotsOfWidths, htwo]
      | false :: rest => simp [slotsOfWidths, slotsOfWidths_eq_zero]
  | case3 n ihNarrow ihWide =>
      match widths with
      | [] => simp [fillings, slotsOfWidths]
      | true :: rest => simp [fillings, slotsOfWidths, ihWide, Nat.add_comm 2]
      | false :: rest => simp [fillings, slotsOfWidths, ihNarrow, Nat.add_comm 1]

namespace ShuffleOp

/-- The topmost slots, which an instruction drops, copies or exchanges. -/
def moved : ShuffleOp → Nat
  | .pop | .dup | .dupX1 | .dupX2 | .swap => 1
  | .pop2 | .dup2 | .dup2X1 | .dup2X2 => 2

/-- The slots below these, which the copies are put below or which are exchanged with them. -/
def passed : ShuffleOp → Nat
  | .pop | .pop2 | .dup | .dup2 => 0
  | .dupX1 | .dup2X1 | .swap => 1
  | .dupX2 | .dup2X2 => 2

/-- What an instruction makes of the topmost group and the one below it. -/
def rearrange {α : Type} (op : ShuffleOp) (group below : List α) : List α :=
  match op with
  | .pop | .pop2 => below
  | .swap => below ++ group
  | .dup | .dupX1 | .dupX2 | .dup2 | .dup2X1 | .dup2X2 => group ++ below ++ group

/-- What an instruction makes of a stack of slots. -/
def onSlots (op : ShuffleOp) (slots : List StackSlot) : List StackSlot :=
  op.rearrange (slots.take op.moved) ((slots.drop op.moved).take op.passed) ++
    slots.drop (op.moved + op.passed)

/-- A stack has the slots that an instruction moves, none of its wide items is cut in two by the boundaries
between them, and there is room for what the instruction makes of it. -/
structure Fits (op : ShuffleOp) (stack : OperandStack) : Prop where
  enough : op.moved + op.passed ≤ stack.slots.length
  moved : ¬ StackSlot.CutAt stack.slots op.moved
  passed : ¬ StackSlot.CutAt stack.slots (op.moved + op.passed)
  room : (op.onSlots stack.slots).length ≤ stack.maxStack.toNat

theorem ofItems_rearrange (op : ShuffleOp) (group below : List StackItem) :
    StackSlot.ofItems (op.rearrange group below) =
      op.rearrange (StackSlot.ofItems group) (StackSlot.ofItems below) := by
  cases op <;> simp only [rearrange, StackSlot.ofItems_append]

/-- On items that fill the groups, an instruction does what the machine without types does. -/
theorem ofItems_rearranged (op : ShuffleOp) {group below : List StackItem}
    (hgroup : (StackSlot.ofItems group).length = op.moved)
    (hbelow : (StackSlot.ofItems below).length = op.passed) (rest : List StackItem) :
    StackSlot.ofItems (op.rearrange group below ++ rest) =
      op.onSlots (StackSlot.ofItems (group ++ (below ++ rest))) := by
  rw [onSlots, StackSlot.ofItems_append, ofItems_rearrange, StackSlot.ofItems_append group,
    List.take_left' hgroup, ← List.drop_drop, List.drop_left' hgroup, StackSlot.ofItems_append below,
    List.take_left' hbelow, List.drop_left' hbelow]

end ShuffleOp

namespace Shuffle

/-- Which items of the topmost group are wide. -/
def group : Shuffle → List Bool
  | .pop | .dup | .dupX1 | .dupX2 _ | .swap => [false]
  | .pop2 .twoNarrow | .dup2 .form1 | .dup2X1 .form1 | .dup2X2 .form1 | .dup2X2 .form3 => [false, false]
  | .pop2 .oneWide | .dup2 .form2 | .dup2X1 .form2 | .dup2X2 .form2 | .dup2X2 .form4 => [true]

/-- Which items of the group below it are wide. -/
def below : Shuffle → List Bool
  | .pop | .pop2 _ | .dup | .dup2 _ => []
  | .dupX1 | .dup2X1 _ | .swap => [false]
  | .dupX2 .form1 | .dup2X2 .form1 | .dup2X2 .form2 => [false, false]
  | .dupX2 .form2 | .dup2X2 .form3 | .dup2X2 .form4 => [true]

/-- The topmost items are wide or not as a form has it. -/
def Matches (form : Shuffle) (items : List StackItem) : Prop :=
  form.group ++ form.below <+: items.map StackItem.isWide

/-- Items begin with those that a form takes. -/
structure Splits (form : Shuffle) (items group below rest : List StackItem) : Prop where
  items : items = group ++ (below ++ rest)
  group : group.map StackItem.isWide = form.group
  below : below.map StackItem.isWide = form.below

theorem matches_iff {form : Shuffle} {items : List StackItem} :
    form.Matches items ↔ ∃ group below rest, form.Splits items group below rest := by
  constructor
  · rintro ⟨behind, hwidths⟩
    obtain ⟨front, rest, rfl, hfront, -⟩ := List.map_eq_append_iff.mp hwidths.symm
    obtain ⟨group, below, rfl, hgroup, hbelow⟩ := List.map_eq_append_iff.mp hfront
    exact ⟨group, below, rest, List.append_assoc .., hgroup, hbelow⟩
  · rintro ⟨group, below, rest, rfl, hgroup, hbelow⟩
    refine ⟨rest.map StackItem.isWide, ?_⟩
    rw [List.map_append, List.map_append, hgroup, hbelow, List.append_assoc]

end Shuffle

/-- The forms of an instruction. -/
def ShuffleOp.forms : ShuffleOp → List Shuffle
  | .pop => [.pop]
  | .pop2 => [.pop2 .twoNarrow, .pop2 .oneWide]
  | .dup => [.dup]
  | .dupX1 => [.dupX1]
  | .dupX2 => [.dupX2 .form1, .dupX2 .form2]
  | .dup2 => [.dup2 .form1, .dup2 .form2]
  | .dup2X1 => [.dup2X1 .form1, .dup2X1 .form2]
  | .dup2X2 => [.dup2X2 .form1, .dup2X2 .form3, .dup2X2 .form2, .dup2X2 .form4]
  | .swap => [.swap]

/-- There is one form for each way in which items can fill the two groups. -/
theorem ShuffleOp.map_forms (op : ShuffleOp) :
    op.forms.map (fun form => (form.group, form.below)) =
      (fillings op.moved).flatMap fun group => (fillings op.passed).map fun below => (group, below) := by
  cases op <;> rfl

theorem ShuffleOp.op_of_mem_forms {op : ShuffleOp} : ∀ form ∈ op.forms, form.op = op := by
  cases op <;> decide

theorem ShuffleOp.exists_form {op : ShuffleOp} {group below : List Bool}
    (hgroup : slotsOfWidths group = op.moved) (hbelow : slotsOfWidths below = op.passed) :
    ∃ form ∈ op.forms, form.group = group ∧ form.below = below := by
  have hmem : (group, below) ∈ op.forms.map fun form => (form.group, form.below) := by
    rw [op.map_forms, List.mem_flatMap]
    exact ⟨group, mem_fillings.mpr hgroup, List.mem_map_of_mem (mem_fillings.mpr hbelow)⟩
  simpa using hmem

theorem Shuffle.mem_forms (form : Shuffle) : form ∈ form.op.forms := by
  cases form with
  | pop | dup | dupX1 | swap => decide
  | pop2 form | dup2 form | dupX2 form | dup2X1 form | dup2X2 form => cases form <;> decide

theorem Shuffle.slotsOfWidths_groups (form : Shuffle) :
    slotsOfWidths form.group = form.op.moved ∧ slotsOfWidths form.below = form.op.passed := by
  have hmem : (form.group, form.below) ∈ form.op.forms.map fun form => (form.group, form.below) :=
    List.mem_map_of_mem form.mem_forms
  rw [form.op.map_forms, List.mem_flatMap] at hmem
  obtain ⟨group, hgroup, hmem⟩ := hmem
  obtain ⟨below, hbelow, hpair⟩ := List.mem_map.mp hmem
  obtain ⟨rfl, rfl⟩ := Prod.mk.inj hpair
  exact ⟨mem_fillings.mp hgroup, mem_fillings.mp hbelow⟩

namespace OperandStack

theorem slotsOf_append (upper lower : List StackItem) :
    slotsOf (upper ++ lower) = slotsOf upper + slotsOf lower := by
  rw [slotsOf_eq, slotsOf_eq, slotsOf_eq, List.map_append, Category.slots_append]

theorem slotsOf_reverse (items : List StackItem) : slotsOf items.reverse = slotsOf items := by
  rw [slotsOf_eq, slotsOf_eq, List.map_reverse, Category.slots_reverse]

/-- Takes an item that is wide or not. -/
def popWidth (wide : Bool) : StackOp StackItem := if wide then popWide else popNarrow

/-- Takes items that are wide or not as listed. -/
def popAll : List Bool → StackOp (List StackItem)
  | [] => pure []
  | wide :: rest => do
    let item ← popWidth wide
    let items ← popAll rest
    return item :: items

/-- A stack is another one with items on top of it. -/
structure Carries (high : OperandStack) (items : List StackItem) (low : OperandStack) : Prop where
  items : high.items = items ++ low.items
  maxStack : high.maxStack = low.maxStack
  high : high.Sound
  low : low.Sound

section Carries

variable {high low stack after : OperandStack} {item : StackItem} {items : List StackItem} {wide : Bool}
  {widths : List Bool}

theorem Carries.refl (h : stack.Sound) : stack.Carries [] stack := ⟨rfl, rfl, h, h⟩

theorem Carries.trans {middle : OperandStack} {upper : List StackItem} (h : high.Carries upper middle)
    (h' : middle.Carries items low) : high.Carries (upper ++ items) low :=
  ⟨by rw [h.items, h'.items, List.append_assoc], h.maxStack.trans h'.maxStack, h.high, h'.low⟩

theorem popWidth_cons {rest : List StackItem} (hitems : stack.items = item :: rest) (wide : Bool) :
    if item.isWide = wide then
      popWidth wide stack = .ok item
        { stack with items := rest, depth := stack.depth - item.size, popped := stack.popped + item.size }
    else ∃ fault, popWidth wide stack = .error fault stack := by
  cases wide with
  | true =>
      rw [popWidth, if_pos rfl, popWide, popIf_cons hitems]
      cases h : item.isWide with
      | true => simp
      | false => simp
  | false =>
      rw [popWidth, if_neg Bool.false_ne_true, popNarrow, popIf_cons hitems]
      cases h : item.isWide with
      | true => simp
      | false => simp

theorem popWidth_ok (h : stack.Sound) (hrun : popWidth wide stack = .ok item after) :
    item.isWide = wide ∧ stack.Carries [item] after := by
  cases hitems : stack.items with
  | nil =>
      have hnone : popWidth wide stack = .error .underflow stack := by
        cases wide <;> exact popIf_nil hitems _ _
      rw [hnone] at hrun
      cases hrun
  | cons top rest =>
      have hcons := popWidth_cons hitems wide
      split at hcons
      · rename_i hwide
        rw [hcons] at hrun
        cases hrun
        exact ⟨hwide, hitems, rfl, h, ((Exchanged.refl h).take hitems).sound⟩
      · obtain ⟨fault, hfault⟩ := hcons
        rw [hfault] at hrun
        cases hrun

theorem popAll_ok (h : stack.Sound) (hrun : popAll widths stack = .ok items after) :
    items.map StackItem.isWide = widths ∧ stack.Carries items after := by
  induction widths generalizing stack items with
  | nil =>
      cases hrun
      exact ⟨rfl, .refl h⟩
  | cons wide rest ih =>
      obtain ⟨item, between, hitem, hrun⟩ := bind_run.mp hrun
      obtain ⟨others, _, hothers, hpure⟩ := bind_run.mp hrun
      cases hpure
      obtain ⟨hwide, hcarries⟩ := popWidth_ok h hitem
      obtain ⟨hwidths, hcarries'⟩ := ih hcarries.low hothers
      refine ⟨?_, hcarries.trans hcarries'⟩
      rw [List.map_cons, hwide, hwidths]

theorem popAll_run {rest : List StackItem} (hitems : stack.items = items ++ rest) :
    ∃ after, popAll (items.map StackItem.isWide) stack = .ok items after := by
  induction items generalizing stack with
  | nil => exact ⟨stack, rfl⟩
  | cons item others ih =>
      have hcons := popWidth_cons hitems item.isWide
      rw [if_pos rfl] at hcons
      have hothers : ∃ after, popAll (others.map StackItem.isWide)
          { stack with items := others ++ rest, depth := stack.depth - item.size,
                       popped := stack.popped + item.size } = .ok others after := ih rfl
      obtain ⟨after, hothers⟩ := hothers
      exact ⟨after, bind_run.mpr ⟨item, _, hcons, bind_run.mpr ⟨others, after, hothers, rfl⟩⟩⟩

theorem pushReserved_ok (h : stack.Sound) (hrun : pushReserved item stack = .ok () after) :
    after.Carries [item] stack := by
  have hyields := yields_push item stack (.refl h)
  unfold pushReserved at hrun
  cases hpush : push item stack with
  | error fault pushed =>
      rw [hpush] at hrun
      cases hrun
  | ok _ pushed =>
      rw [hpush] at hrun hyields
      cases hrun
      exact ⟨push_ok hpush, hyields.maxStack, hyields.sound, h⟩

theorem pushAllReserved_ok (h : stack.Sound) (hrun : pushAllReserved items stack = .ok () after) :
    after.Carries items.reverse stack := by
  induction items generalizing stack with
  | nil =>
      cases hrun
      exact .refl h
  | cons item rest ih =>
      obtain ⟨_, between, hitem, hrest⟩ := bind_run.mp hrun
      have hcarries := pushReserved_ok h hitem
      rw [List.reverse_cons]
      exact (ih hcarries.high hrest).trans hcarries

theorem pushAllReserved_run (h : stack.Sound)
    (hroom : stack.depth.toNat + slotsOf items ≤ stack.maxStack.toNat) :
    ∃ after, pushAllReserved items stack = .ok () after := by
  have hrun := yields_pushAllReserved items stack ⟨Exchanged.refl h, hroom⟩
  cases hresult : pushAllReserved items stack with
  | error fault after =>
      rw [hresult] at hrun
      exact hrun.elim
  | ok _ after => exact ⟨after, rfl⟩

end Carries

end OperandStack

open OperandStack

/-- Checks that there is room for what an instruction that copies puts back. -/
def ShuffleOp.checkRoom : ShuffleOp → StackOp Unit
  | .pop | .pop2 | .swap => pure ()
  | op => reserve (UInt16.ofNat op.slotsPut)

/-- Takes the items of both groups in a form, and puts them back as the instruction rearranges them. -/
def Shuffle.exchange (form : Shuffle) : StackOp Shuffle := do
  let group ← popAll form.group
  let below ← popAll form.below
  form.op.checkRoom
  pushAllReserved (form.op.rearrange group below).reverse
  return form

section Exchange

variable {stack after : OperandStack} {form found : Shuffle} {items group below rest : List StackItem}

theorem ShuffleOp.checkRoom_ok {op : ShuffleOp} (hrun : op.checkRoom stack = .ok () after) :
    after = stack := by
  cases op with
  | pop | pop2 | swap =>
      cases hrun
      rfl
  | _ => exact reserve_ok hrun

theorem ShuffleOp.checkRoom_run {op : ShuffleOp}
    (hroom : stack.depth.toNat + op.slotsPut ≤ stack.maxStack.toNat) :
    op.checkRoom stack = .ok () stack := by
  have hreserve : reserve (UInt16.ofNat op.slotsPut) stack = .ok () stack := by
    have hslots : (UInt16.ofNat op.slotsPut).toNat = op.slotsPut := by cases op <;> rfl
    rw [reserve, get_bind_run, hslots, if_neg (Nat.not_lt.mpr hroom)]
    rfl
  cases op with
  | pop | pop2 | swap => rfl
  | _ => exact hreserve

/-- The slots that an instruction puts back are those that it makes of its groups. -/
theorem ShuffleOp.length_rearrange {α : Type} {op : ShuffleOp} {group below : List α}
    (hgroup : group.length = op.moved) (hbelow : below.length = op.passed) :
    (op.rearrange group below).length = op.slotsPut := by
  cases op with
  | swap => rw [rearrange, List.length_append, hgroup, hbelow, moved, passed, slotsPut]
  | pop | pop2 => rw [rearrange, hbelow, passed, slotsPut]
  | _ =>
      rw [rearrange, List.length_append, List.length_append, hgroup, hbelow, moved, passed, slotsPut]

/-- An exchange that succeeds puts the items of the groups back as they are rearranged. -/
theorem Shuffle.exchange_ok (h : stack.Sound) (hrun : form.exchange stack = .ok found after) :
    found = form ∧ after.Sound ∧ after.maxStack = stack.maxStack ∧
      ∃ group below rest, form.Splits stack.items group below rest ∧
        after.items = form.op.rearrange group below ++ rest := by
  obtain ⟨group, between, hgroup, hrun⟩ := bind_run.mp hrun
  obtain ⟨below, taken, hbelow, hrun⟩ := bind_run.mp hrun
  obtain ⟨_, _, hroom, hrun⟩ := bind_run.mp hrun
  obtain ⟨_, _, hpush, hpure⟩ := bind_run.mp hrun
  cases hpure
  cases ShuffleOp.checkRoom_ok hroom
  obtain ⟨hgroup, hupper⟩ := popAll_ok h hgroup
  obtain ⟨hbelow, hlower⟩ := popAll_ok hupper.low hbelow
  have hput := pushAllReserved_ok hlower.low hpush
  rw [List.reverse_reverse] at hput
  have hitems : stack.items = group ++ (below ++ taken.items) := by
    rw [hupper.items, hlower.items]
  have hlimit : after.maxStack = stack.maxStack := by
    rw [hput.maxStack, hupper.maxStack, hlower.maxStack]
  exact ⟨rfl, hput.high, hlimit, group, below, taken.items, ⟨hitems, hgroup, hbelow⟩, hput.items⟩

/-- An exchange succeeds if the items are there and there is room for them as they are rearranged. -/
theorem Shuffle.exchange_run (h : stack.Sound) (hsplits : form.Splits stack.items group below rest)
    (hroom : OperandStack.slotsOf (form.op.rearrange group below ++ rest) ≤ stack.maxStack.toNat) :
    ∃ after, form.exchange stack = .ok form after := by
  obtain ⟨between, hgroup⟩ := popAll_run hsplits.items
  obtain ⟨-, hupper⟩ := popAll_ok h hgroup
  have hbetween : between.items = below ++ rest := by
    rw [← List.append_cancel_left_eq group, ← hupper.items, hsplits.items]
  obtain ⟨taken, hbelow⟩ := popAll_run hbetween
  obtain ⟨-, hlower⟩ := popAll_ok hupper.low hbelow
  have htaken : taken.items = rest := by
    rw [← List.append_cancel_left_eq below, ← hlower.items, hbetween]
  have hput : OperandStack.slotsOf (form.op.rearrange group below) = form.op.slotsPut := by
    obtain ⟨hmoved, hpassed⟩ := form.slotsOfWidths_groups
    rw [← hsplits.group, StackSlot.slotsOfWidths_map] at hmoved
    rw [← hsplits.below, StackSlot.slotsOfWidths_map] at hpassed
    rw [← StackSlot.length_ofItems, ShuffleOp.ofItems_rearrange, ShuffleOp.length_rearrange hmoved hpassed]
  have hlimit : taken.maxStack = stack.maxStack := hlower.maxStack.symm.trans hupper.maxStack.symm
  have htotal : taken.depth.toNat + form.op.slotsPut ≤ taken.maxStack.toNat := by
    rw [slotsOf_append, hput, ← htaken, hlower.low.depth] at hroom
    rw [hlimit, Nat.add_comm]
    exact hroom
  have hreserve := ShuffleOp.checkRoom_run htotal
  rw [← hput, ← slotsOf_reverse] at htotal
  obtain ⟨after, hpush⟩ := pushAllReserved_run hlower.low htotal
  rw [hsplits.group] at hgroup
  rw [hsplits.below] at hbelow
  exact ⟨after, bind_run.mpr ⟨group, between, hgroup, bind_run.mpr ⟨below, taken, hbelow,
    bind_run.mpr ⟨(), taken, hreserve, bind_run.mpr ⟨(), after, hpush, rfl⟩⟩⟩⟩⟩

end Exchange

section Dispatch

theorem throw_then {α β : Type} (fault : CodeFault) (next : α → StackOp β) :
    ((throw fault : StackOp α) >>= next) = throw fault := rfl

theorem map_throw {α β : Type} (fault : CodeFault) (f : α → β) :
    (f <$> (throw fault : StackOp α)) = throw fault := rfl

attribute [local simp] Shuffle.exchange popAll popWidth Shuffle.group Shuffle.below Shuffle.op
  ShuffleOp.rearrange ShuffleOp.checkRoom ShuffleOp.slotsPut throw_then map_throw

theorem run_pop : ShuffleOp.pop.run = Shuffle.exchange .pop := by
  simp [ShuffleOp.run, pushAllReserved]

theorem run_dup : ShuffleOp.dup.run = Shuffle.exchange .dup := by
  simp [ShuffleOp.run, dup]

theorem run_dupX1 : ShuffleOp.dupX1.run = Shuffle.exchange .dupX1 := by
  simp [ShuffleOp.run, dupX1]

theorem run_swap : ShuffleOp.swap.run = Shuffle.exchange .swap := by
  simp [ShuffleOp.run, swap]

theorem run_pop2 : ShuffleOp.pop2.run = (do
    if (← peek).isWide then Shuffle.exchange (.pop2 .oneWide)
    else Shuffle.exchange (.pop2 .twoNarrow)) := by
  simp [ShuffleOp.run, pop2, pushAllReserved, apply_ite (Functor.map Shuffle.pop2 : StackOp _ → _)]

theorem run_dupX2 : ShuffleOp.dupX2.run = (do
    let top ← peek
    if top.isWide then throw (.mismatch .narrowValue top.subject)
    else if (← peekAt 1).isWide then Shuffle.exchange (.dupX2 .form2)
    else Shuffle.exchange (.dupX2 .form1)) := by
  simp [ShuffleOp.run, dupX2, apply_ite (Functor.map Shuffle.dupX2 : StackOp _ → _)]

theorem run_dup2 : ShuffleOp.dup2.run = (do
    if (← peek).isWide then Shuffle.exchange (.dup2 .form2)
    else Shuffle.exchange (.dup2 .form1)) := by
  simp [ShuffleOp.run, dup2, apply_ite (Functor.map Shuffle.dup2 : StackOp _ → _)]

theorem run_dup2X1 : ShuffleOp.dup2X1.run = (do
    if (← peek).isWide then Shuffle.exchange (.dup2X1 .form2)
    else Shuffle.exchange (.dup2X1 .form1)) := by
  simp [ShuffleOp.run, dup2X1, apply_ite (Functor.map Shuffle.dup2X1 : StackOp _ → _)]

theorem run_dup2X2 : ShuffleOp.dup2X2.run = (do
    if (← peek).isWide then
      if (← peekAt 1).isWide then Shuffle.exchange (.dup2X2 .form4)
      else Shuffle.exchange (.dup2X2 .form2)
    else
      let second ← peekAt 1
      if second.isWide then throw (.mismatch .narrowValue second.subject)
      else if (← peekAt 2).isWide then Shuffle.exchange (.dup2X2 .form3)
      else Shuffle.exchange (.dup2X2 .form1)) := by
  simp [ShuffleOp.run, dup2X2, apply_ite (Functor.map Shuffle.dup2X2 : StackOp _ → _)]

end Dispatch

section Forms

variable {stack after : OperandStack} {op : ShuffleOp} {form found : Shuffle}

theorem run_of_peek {α : Type} {n : Nat} {item : StackItem} (h : stack.items[n]? = some item)
    (next : StackItem → StackOp α) : (peekAt n >>= next) stack = next item stack := by
  have hpeek : peekAt n stack = .ok item stack := by
    rw [peekAt, get_bind_run, h]
    rfl
  change EStateM.bind (peekAt n) next stack = _
  rw [EStateM.bind, hpeek]

theorem peek_of_run {α : Type} {n : Nat} {next : StackItem → StackOp α} {a : α}
    (hrun : (peekAt n >>= next) stack = .ok a after) : ∃ item, next item stack = .ok a after := by
  obtain ⟨item, between, hpeek, hnext⟩ := bind_run.mp hrun
  obtain ⟨rfl, -⟩ := peekAt_ok hpeek
  exact ⟨item, hnext⟩

/-- An instruction that succeeds does so in one of its forms. -/
theorem ShuffleOp.exchange_of_run (hrun : op.run stack = .ok found after) :
    ∃ form ∈ op.forms, form.exchange stack = .ok found after := by
  cases op with
  | pop => exact ⟨_, by decide, run_pop ▸ hrun⟩
  | dup => exact ⟨_, by decide, run_dup ▸ hrun⟩
  | dupX1 => exact ⟨_, by decide, run_dupX1 ▸ hrun⟩
  | swap => exact ⟨_, by decide, run_swap ▸ hrun⟩
  | pop2 =>
      rw [run_pop2] at hrun
      obtain ⟨top, hrun⟩ := peek_of_run hrun
      split at hrun
      · exact ⟨.pop2 .oneWide, by decide, hrun⟩
      · exact ⟨.pop2 .twoNarrow, by decide, hrun⟩
  | dup2 =>
      rw [run_dup2] at hrun
      obtain ⟨top, hrun⟩ := peek_of_run hrun
      split at hrun
      · exact ⟨.dup2 .form2, by decide, hrun⟩
      · exact ⟨.dup2 .form1, by decide, hrun⟩
  | dup2X1 =>
      rw [run_dup2X1] at hrun
      obtain ⟨top, hrun⟩ := peek_of_run hrun
      split at hrun
      · exact ⟨.dup2X1 .form2, by decide, hrun⟩
      · exact ⟨.dup2X1 .form1, by decide, hrun⟩
  | dupX2 =>
      rw [run_dupX2] at hrun
      obtain ⟨top, hrun⟩ := peek_of_run hrun
      split at hrun
      · cases hrun
      · obtain ⟨second, hrun⟩ := peek_of_run hrun
        split at hrun
        · exact ⟨.dupX2 .form2, by decide, hrun⟩
        · exact ⟨.dupX2 .form1, by decide, hrun⟩
  | dup2X2 =>
      rw [run_dup2X2] at hrun
      obtain ⟨top, hrun⟩ := peek_of_run hrun
      split at hrun
      · obtain ⟨second, hrun⟩ := peek_of_run hrun
        split at hrun
        · exact ⟨.dup2X2 .form4, by decide, hrun⟩
        · exact ⟨.dup2X2 .form2, by decide, hrun⟩
      · obtain ⟨second, hrun⟩ := peek_of_run hrun
        split at hrun
        · cases hrun
        · obtain ⟨third, hrun⟩ := peek_of_run hrun
          split at hrun
          · exact ⟨.dup2X2 .form3, by decide, hrun⟩
          · exact ⟨.dup2X2 .form1, by decide, hrun⟩

theorem Shuffle.Matches.item {items : List StackItem} (h : form.Matches items) {n : Nat} {wide : Bool}
    (hn : (form.group ++ form.below)[n]? = some wide) :
    ∃ item, items[n]? = some item ∧ item.isWide = wide := by
  obtain ⟨behind, hwidths⟩ := h
  have hget : (items.map StackItem.isWide)[n]? = some wide := by
    rw [← hwidths, List.getElem?_append_left (List.getElem?_eq_some_iff.mp hn).1, hn]
  simpa using hget

theorem Shuffle.Matches.run_wide {α : Type} (h : form.Matches stack.items) {n : Nat}
    (hn : (form.group ++ form.below)[n]? = some true) (onWide onNarrow : StackOp α) :
    (peekAt n >>= fun item => if item.isWide then onWide else onNarrow) stack = onWide stack := by
  obtain ⟨item, hitem, hwide⟩ := h.item hn
  rw [run_of_peek hitem, if_pos hwide]

theorem Shuffle.Matches.run_narrow {α : Type} (h : form.Matches stack.items) {n : Nat}
    (hn : (form.group ++ form.below)[n]? = some false) (onWide : StackItem → StackOp α)
    (onNarrow : StackOp α) :
    (peekAt n >>= fun item => if item.isWide then onWide item else onNarrow) stack = onNarrow stack := by
  obtain ⟨item, hitem, hwide⟩ := h.item hn
  rw [run_of_peek hitem, hwide, if_neg Bool.false_ne_true]

/-- An instruction takes the form that the topmost items match. -/
theorem Shuffle.run_of_matches (h : form.Matches stack.items) :
    form.op.run stack = form.exchange stack := by
  cases form with
  | pop => rw [Shuffle.op, run_pop]
  | dup => rw [Shuffle.op, run_dup]
  | dupX1 => rw [Shuffle.op, run_dupX1]
  | swap => rw [Shuffle.op, run_swap]
  | pop2 form =>
      rw [Shuffle.op, run_pop2, peek]
      cases form with
      | twoNarrow => exact h.run_narrow rfl _ _
      | oneWide => exact h.run_wide rfl _ _
  | dup2 form =>
      rw [Shuffle.op, run_dup2, peek]
      cases form with
      | form1 => exact h.run_narrow rfl _ _
      | form2 => exact h.run_wide rfl _ _
  | dup2X1 form =>
      rw [Shuffle.op, run_dup2X1, peek]
      cases form with
      | form1 => exact h.run_narrow rfl _ _
      | form2 => exact h.run_wide rfl _ _
  | dupX2 form =>
      rw [Shuffle.op, run_dupX2, peek]
      cases form with
      | form1 => exact (h.run_narrow rfl _ _).trans (h.run_narrow rfl _ _)
      | form2 => exact (h.run_narrow rfl _ _).trans (h.run_wide rfl _ _)
  | dup2X2 form =>
      rw [Shuffle.op, run_dup2X2, peek]
      cases form with
      | form1 =>
          exact ((h.run_narrow rfl _ _).trans (h.run_narrow rfl _ _)).trans (h.run_narrow rfl _ _)
      | form2 => exact (h.run_wide rfl _ _).trans (h.run_narrow rfl _ _)
      | form3 => exact ((h.run_narrow rfl _ _).trans (h.run_narrow rfl _ _)).trans (h.run_wide rfl _ _)
      | form4 => exact (h.run_wide rfl _ _).trans (h.run_wide rfl _ _)

end Forms

section Refinement

variable {stack after : OperandStack} {op : ShuffleOp} {form other found : Shuffle}

/-- Of two lists of widths that begin the same list and fill as many slots, one is the other. -/
theorem eq_of_slotsOfWidths : ∀ {a b c d : List Bool}, a ++ c = b ++ d →
    slotsOfWidths a = slotsOfWidths b → a = b
  | [], _, _, _, _, h => (slotsOfWidths_eq_zero.mp h.symm).symm
  | _, [], _, _, _, h => slotsOfWidths_eq_zero.mp h
  | wide :: a, wide' :: b, c, d, happend, h => by
      rw [List.cons_append, List.cons_append, List.cons.injEq] at happend
      obtain ⟨rfl, hrest⟩ := happend
      have hslots : slotsOfWidths a = slotsOfWidths b := Nat.add_left_cancel h
      rw [eq_of_slotsOfWidths hrest hslots]

theorem ShuffleOp.forms_injective (op : ShuffleOp) : ∀ form ∈ op.forms, ∀ other ∈ op.forms,
    form.group = other.group → form.below = other.below → form = other := by
  cases op <;> decide

/-- No two forms of an instruction match the same items. -/
theorem Shuffle.Matches.unique {items : List StackItem} (h : form.Matches items)
    (h' : other.Matches items) (hop : form.op = other.op) : form = other := by
  obtain ⟨rest, hwidths⟩ := h
  obtain ⟨rest', hwidths'⟩ := h'
  obtain ⟨hmoved, hpassed⟩ := form.slotsOfWidths_groups
  obtain ⟨hmoved', hpassed'⟩ := other.slotsOfWidths_groups
  rw [← hwidths', List.append_assoc, List.append_assoc] at hwidths
  have hgroup : form.group = other.group :=
    eq_of_slotsOfWidths hwidths (by rw [hmoved, hmoved', hop])
  rw [hgroup, List.append_cancel_left_eq] at hwidths
  have hbelow : form.below = other.below :=
    eq_of_slotsOfWidths hwidths (by rw [hpassed, hpassed', hop])
  exact form.op.forms_injective form form.mem_forms other (hop ▸ other.mem_forms) hgroup hbelow

/-- A stack fits an instruction if and only if its items begin with those that one of the forms takes, and
there is room. -/
theorem ShuffleOp.fits_iff : op.Fits stack ↔ ∃ form ∈ op.forms, ∃ group below rest,
    form.Splits stack.items group below rest ∧
      OperandStack.slotsOf (op.rearrange group below ++ rest) ≤ stack.maxStack.toNat := by
  have hslots {group below rest : List StackItem} (hitems : stack.items = group ++ (below ++ rest))
      (hgroup : (StackSlot.ofItems group).length = op.moved)
      (hbelow : (StackSlot.ofItems below).length = op.passed) :
      (op.onSlots stack.slots).length = OperandStack.slotsOf (op.rearrange group below ++ rest) := by
    rw [← StackSlot.length_ofItems, op.ofItems_rearranged hgroup hbelow, ← hitems]
    rfl
  constructor
  · intro h
    have henough := h.enough
    have hpassed := h.passed
    obtain ⟨group, behind, hitems, hgroup⟩ := StackSlot.exists_group_iff.mp
      ⟨Nat.le_trans (Nat.le_add_right ..) henough, h.moved⟩
    rw [OperandStack.slots, hitems, StackSlot.ofItems_append, List.length_append, ← hgroup] at henough
    rw [OperandStack.slots, hitems, StackSlot.ofItems_append, ← hgroup, StackSlot.cutAt_append] at hpassed
    obtain ⟨below, rest, rfl, hbelow⟩ := StackSlot.exists_group_iff.mp
      ⟨Nat.le_of_add_le_add_left henough, hpassed⟩
    obtain ⟨form, hform, hwidths, hwidths'⟩ := exists_form
      ((StackSlot.slotsOfWidths_map group).trans hgroup) ((StackSlot.slotsOfWidths_map below).trans hbelow)
    have hroom := h.room
    rw [hslots hitems hgroup hbelow] at hroom
    exact ⟨form, hform, group, below, rest, ⟨hitems, hwidths.symm, hwidths'.symm⟩, hroom⟩
  · rintro ⟨form, hform, group, below, rest, hsplits, hroom⟩
    obtain ⟨hgroup, hbelow⟩ := form.slotsOfWidths_groups
    rw [op_of_mem_forms form hform, ← hsplits.group, StackSlot.slotsOfWidths_map] at hgroup
    rw [op_of_mem_forms form hform, ← hsplits.below, StackSlot.slotsOfWidths_map] at hbelow
    have hboth : (StackSlot.ofItems (group ++ below)).length = op.moved + op.passed := by
      rw [StackSlot.ofItems_append, List.length_append, hgroup, hbelow]
    obtain ⟨-, hmoved⟩ := StackSlot.exists_group_iff.mpr ⟨group, below ++ rest, hsplits.items, hgroup⟩
    obtain ⟨henough, hpassed⟩ := StackSlot.exists_group_iff.mpr
      ⟨group ++ below, rest, hsplits.items.trans (List.append_assoc ..).symm, hboth⟩
    rw [← hslots hsplits.items hgroup hbelow] at hroom
    exact ⟨henough, hmoved, hpassed, hroom⟩

/-- What an instruction does to the items of a sound stack when it succeeds. -/
theorem ShuffleOp.run_ok (h : stack.Sound) (hrun : op.run stack = .ok found after) :
    found.op = op ∧ after.Sound ∧ after.maxStack = stack.maxStack ∧
      ∃ group below rest, found.Splits stack.items group below rest ∧
        after.items = op.rearrange group below ++ rest := by
  obtain ⟨form, hform, hexchange⟩ := exchange_of_run hrun
  obtain ⟨rfl, hsound, hlimit, group, below, rest, hsplits, hitems⟩ := Shuffle.exchange_ok h hexchange
  have hop := op_of_mem_forms found hform
  rw [hop] at hitems
  exact ⟨hop, hsound, hlimit, group, below, rest, hsplits, hitems⟩

/-- The stack instructions refine the machine without types. On a sound stack, which is any that operations
make, an instruction succeeds if and only if the stack fits it; it then does to the slots what the machine
does, and reports the one form that the topmost items match. -/
theorem ShuffleOp.run_refines (h : stack.Sound) (op : ShuffleOp) :
    ((∃ form after, op.run stack = .ok form after) ↔ op.Fits stack) ∧
    ∀ form after, op.run stack = .ok form after →
      after.slots = op.onSlots stack.slots ∧ after.Sound ∧ after.maxStack = stack.maxStack ∧
      form.op = op ∧ form.Matches stack.items ∧
      ∀ other : Shuffle, other.op = op → other.Matches stack.items → other = form := by
  refine ⟨⟨?_, ?_⟩, ?_⟩
  · rintro ⟨form, after, hrun⟩
    obtain ⟨rfl, hsound, hlimit, group, below, rest, hsplits, hitems⟩ := run_ok h hrun
    refine fits_iff.mpr ⟨form, form.mem_forms, group, below, rest, hsplits, ?_⟩
    rw [← hitems, hsound.depth, ← hlimit]
    exact hsound.limit
  · intro hfits
    obtain ⟨form, hform, group, below, rest, hsplits, hroom⟩ := fits_iff.mp hfits
    obtain rfl := op_of_mem_forms form hform
    obtain ⟨after, hexchange⟩ := Shuffle.exchange_run h hsplits hroom
    have hmatches := Shuffle.matches_iff.mpr ⟨group, below, rest, hsplits⟩
    exact ⟨form, after, (Shuffle.run_of_matches hmatches).trans hexchange⟩
  · intro form after hrun
    obtain ⟨rfl, hsound, hlimit, group, below, rest, hsplits, hitems⟩ := run_ok h hrun
    obtain ⟨hgroup, hbelow⟩ := form.slotsOfWidths_groups
    rw [← hsplits.group, StackSlot.slotsOfWidths_map] at hgroup
    rw [← hsplits.below, StackSlot.slotsOfWidths_map] at hbelow
    have hslots : after.slots = form.op.onSlots stack.slots := by
      rw [OperandStack.slots, hitems, form.op.ofItems_rearranged hgroup hbelow, ← hsplits.items]
      rfl
    have hmatches := Shuffle.matches_iff.mpr ⟨group, below, rest, hsplits⟩
    exact ⟨hslots, hsound, hlimit, rfl, hmatches, fun other hop hother => hother.unique hmatches hop⟩

/-- Two narrow values above a wide one. -/
def narrowAboveWide : OperandStack where
  items := [.numeric .int ⟨4, .constant⟩, .numeric .float ⟨3, .constant⟩, .numeric .double ⟨0, .local 1⟩]
  depth := 4
  maxStack := 6
  popped := 0
  pushed := 0

/-- The two narrow values are copied below the wide one, both halves of which stay together. -/
theorem ShuffleOp.narrowAboveWide_refines : narrowAboveWide.Sound ∧ ShuffleOp.dup2X2.Fits narrowAboveWide ∧
    ∃ after, ShuffleOp.dup2X2.run narrowAboveWide = .ok (.dup2X2 .form3) after ∧
      after.slots =
        [.whole (.numeric .int ⟨4, .constant⟩), .whole (.numeric .float ⟨3, .constant⟩),
          .upper (.numeric .double ⟨0, .local 1⟩), .lower (.numeric .double ⟨0, .local 1⟩),
          .whole (.numeric .int ⟨4, .constant⟩), .whole (.numeric .float ⟨3, .constant⟩)] := by
  have hsound : narrowAboveWide.Sound := ⟨by decide, by decide⟩
  obtain ⟨hruns, heffect⟩ := run_refines hsound .dup2X2
  have hrun : ∃ after, ShuffleOp.dup2X2.run narrowAboveWide = .ok (.dup2X2 .form3) after := ⟨_, rfl⟩
  obtain ⟨after, hrun⟩ := hrun
  exact ⟨hsound, hruns.mp ⟨_, after, hrun⟩, after, hrun, (heffect _ after hrun).1⟩

end Refinement

end ClassFile
