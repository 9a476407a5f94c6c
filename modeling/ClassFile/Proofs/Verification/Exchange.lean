import ClassFile.Proofs.Verification.Entry
import ClassFile.Proofs.Verification.Foreseen
import ClassFile.Proofs.Verification.Slots

/-! The counters of an operand stack. A stack is sound if its depth is the number of slots that its items
take, within the limit. Operations take items off a sound stack and put others on it; the counters say how
many slots these took, also for an operation that fails half way. -/

namespace ClassFile

namespace Category

/-- The slots that values of categories take. -/
def slots : List Category → Nat
  | [] => 0
  | c :: cs => c.size.toNat + slots cs

theorem slots_nil : slots [] = 0 := rfl

theorem slots_cons (c : Category) (cs : List Category) : slots (c :: cs) = c.size.toNat + slots cs := rfl

theorem slots_append (cs ds : List Category) : slots (cs ++ ds) = slots cs + slots ds := by
  induction cs with
  | nil => exact (Nat.zero_add _).symm
  | cons c cs ih => rw [List.cons_append, slots_cons, slots_cons, ih, Nat.add_assoc]

theorem slots_singleton (c : Category) : slots [c] = c.size.toNat := rfl

theorem slots_reverse (cs : List Category) : slots cs.reverse = slots cs := by
  induction cs with
  | nil => rfl
  | cons c cs ih => rw [List.reverse_cons, slots_append, ih, slots_singleton, slots_cons, Nat.add_comm]

theorem eq_nil_of_slots {cs : List Category} (h : slots cs = 0) : cs = [] := by
  cases cs with
  | nil => rfl
  | cons c rest =>
      have := c.one_le_size
      rw [slots_cons] at h
      omega

end Category

namespace OperandStack

/-- The depth is the number of slots that the items take, and within the limit. -/
structure Sound (stack : OperandStack) : Prop where
  depth : slotsOf stack.items = stack.depth.toNat
  limit : stack.depth.toNat ≤ stack.maxStack.toNat

/-- A stack comes from another one by taking values of categories off it, and putting others on it, both
listed in the order in which that happened. -/
structure Exchanged (start : OperandStack) (taken put : List Category) (now : OperandStack) : Prop where
  items : ∃ kept, start.items.map StackItem.category = taken ++ kept ∧
    now.items.map StackItem.category = put.reverse ++ kept
  maxStack : now.maxStack = start.maxStack
  popped : now.popped = start.popped + UInt16.ofNat (Category.slots taken)
  pushed : now.pushed = start.pushed + UInt16.ofNat (Category.slots put)
  sound : now.Sound

theorem slotsOf_eq (items : List StackItem) :
    slotsOf items = Category.slots (items.map StackItem.category) := by
  induction items with
  | nil => rfl
  | cons item rest ih =>
      rw [List.map_cons, Category.slots_cons, ← ih]
      rfl

theorem sound_empty (maxStack : UInt16) : (empty maxStack).Sound := ⟨rfl, Nat.zero_le _⟩

namespace Exchanged

variable {start now : OperandStack} {taken put : List Category}

theorem refl (h : start.Sound) : Exchanged start [] [] start :=
  ⟨⟨_, rfl, rfl⟩, rfl, (UInt16.add_zero _).symm, (UInt16.add_zero _).symm, h⟩

theorem taken_le (h : Exchanged start taken put now) (hstart : start.Sound) :
    Category.slots taken ≤ start.depth.toNat := by
  obtain ⟨kept, hitems, _⟩ := h.items
  rw [← hstart.depth, slotsOf_eq, hitems, Category.slots_append]
  exact Nat.le_add_right _ _

theorem put_le (h : Exchanged start taken put now) : Category.slots put ≤ now.depth.toNat := by
  obtain ⟨kept, _, hitems⟩ := h.items
  rw [← h.sound.depth, slotsOf_eq, hitems, Category.slots_append, Category.slots_reverse]
  exact Nat.le_add_right _ _

/-- What was there and what was put there is there now or was taken. -/
theorem balance (h : Exchanged start taken put now) (hstart : start.Sound) :
    start.depth.toNat + Category.slots put = now.depth.toNat + Category.slots taken := by
  obtain ⟨kept, hbefore, hafter⟩ := h.items
  rw [← hstart.depth, ← h.sound.depth, slotsOf_eq, slotsOf_eq, hbefore, hafter, Category.slots_append,
    Category.slots_append, Category.slots_reverse]
  omega

theorem take (h : Exchanged start taken [] now) {item : StackItem} {rest : List StackItem}
    (hitems : now.items = item :: rest) :
    Exchanged start (taken ++ [item.category]) []
      { now with items := rest, depth := now.depth - item.size, popped := now.popped + item.size } := by
  obtain ⟨kept, hbefore, hafter⟩ := h.items
  have hdepth := h.sound.depth
  rw [hitems, List.map_cons, List.reverse_nil, List.nil_append] at hafter
  rw [hitems, slotsOf_eq, List.map_cons, Category.slots_cons] at hdepth
  have hsize : item.size ≤ now.depth := by
    rw [UInt16.le_iff_toNat_le, ← hdepth]
    exact Nat.le_add_right _ _
  refine ⟨⟨rest.map StackItem.category, ?_, rfl⟩, h.maxStack, ?_, h.pushed, ?_, ?_⟩
  · rw [hbefore, ← hafter, List.append_assoc, List.singleton_append]
  · rw [h.popped, Category.slots_append, Category.slots_singleton, UInt16.ofNat_add, UInt16.ofNat_toNat,
      UInt16.add_assoc]
    rfl
  · change slotsOf rest = (now.depth - item.size).toNat
    rw [slotsOf_eq, UInt16.toNat_sub_of_le _ _ hsize, ← hdepth]
    exact (Nat.add_sub_cancel_left ..).symm
  · have := h.sound.limit
    change (now.depth - item.size).toNat ≤ now.maxStack.toNat
    rw [UInt16.toNat_sub_of_le _ _ hsize]
    omega

theorem putOn (h : Exchanged start taken put now) {item : StackItem}
    (hroom : now.depth.toNat + item.size.toNat ≤ now.maxStack.toNat) :
    Exchanged start taken (put ++ [item.category])
      { now with
        items := item :: now.items
        depth := now.depth + item.size
        pushed := now.pushed + item.size } := by
  obtain ⟨kept, hbefore, hafter⟩ := h.items
  have hlimit := now.maxStack.toNat_lt
  have hdepth : (now.depth + item.size).toNat = now.depth.toNat + item.size.toNat := by
    rw [UInt16.toNat_add]
    exact Nat.mod_eq_of_lt (by omega)
  refine ⟨⟨kept, hbefore, ?_⟩, h.maxStack, h.popped, ?_, ?_, ?_⟩
  · rw [List.map_cons, hafter, List.reverse_append, List.reverse_singleton, List.singleton_append,
      List.cons_append]
  · rw [h.pushed, Category.slots_append, Category.slots_singleton, UInt16.ofNat_add, UInt16.ofNat_toNat,
      UInt16.add_assoc]
    rfl
  · change slotsOf (item :: now.items) = (now.depth + item.size).toNat
    rw [hdepth, ← h.sound.depth, slotsOf_eq, List.map_cons, Category.slots_cons, slotsOf_eq, Nat.add_comm]
    rfl
  · change (now.depth + item.size).toNat ≤ now.maxStack.toNat
    rwa [hdepth]

end Exchanged

theorem popIf_nil {stack : OperandStack} (h : stack.items = []) (expected : Subject)
    (accepts : StackItem → Bool) : popIf expected accepts stack = .error .underflow stack := by
  have hpeek : peek stack = .error .underflow stack := by
    rw [peek, peekAt, get_bind_run, h]
    rfl
  change EStateM.bind peek _ stack = _
  rw [EStateM.bind, hpeek]

theorem popIf_cons {stack : OperandStack} {item : StackItem} {rest : List StackItem}
    (h : stack.items = item :: rest) (expected : Subject) (accepts : StackItem → Bool) :
    popIf expected accepts stack =
      if accepts item then
        .ok item
          { stack with items := rest, depth := stack.depth - item.size, popped := stack.popped + item.size }
      else .error (.mismatch expected item.subject) stack := by
  have hpeek : peek stack = .ok item stack := by
    rw [peek, peekAt, get_bind_run, h]
    rfl
  change EStateM.bind peek _ stack = _
  rw [EStateM.bind, hpeek]
  dsimp only
  split
  · rw [pop, get_bind_run, h]
    rfl
  · rfl

theorem push_run {stack : OperandStack} {item : StackItem}
    (hroom : stack.depth.toNat + item.size.toNat ≤ stack.maxStack.toNat) :
    push item stack = .ok ()
      { stack with
        items := item :: stack.items
        depth := stack.depth + item.size
        pushed := stack.pushed + item.size } := by
  have hreserve : reserve item.size stack = .ok () stack := by
    rw [reserve, get_bind_run, if_neg (Nat.not_lt.mpr hroom)]
    rfl
  change EStateM.bind (reserve item.size) _ stack = _
  rw [EStateM.bind, hreserve]
  rfl

theorem pushReserved_run {stack : OperandStack} {item : StackItem}
    (hroom : stack.depth.toNat + item.size.toNat ≤ stack.maxStack.toNat) :
    pushReserved item stack = .ok ()
      { stack with
        items := item :: stack.items
        depth := stack.depth + item.size
        pushed := stack.pushed + item.size } := by
  rw [pushReserved, push_run hroom]

theorem sound_replaced {stack : OperandStack} {items : List StackItem}
    (hroom : slotsOf items ≤ stack.maxStack.toNat) :
    Sound { stack with items, depth := UInt16.ofNat (slotsOf items) } := by
  have hdepth : (UInt16.ofNat (slotsOf items)).toNat = slotsOf items :=
    UInt16.toNat_ofNat_of_lt' (Nat.lt_of_le_of_lt hroom stack.maxStack.toNat_lt)
  exact ⟨hdepth.symm, Nat.le_trans (Nat.le_of_eq hdepth) hroom⟩

/-- Numbers of slots were taken off a stack and put on it. -/
def Moved (start : OperandStack) (taken put : Nat) (now : OperandStack) : Prop :=
  ∃ cs ds, Exchanged start cs ds now ∧ Category.slots cs = taken ∧ Category.slots ds = put

/-- An operation failed with a fault of the code, after it had moved some items or none. -/
def Settled (start : OperandStack) (fault : CodeFault) (now : OperandStack) : Prop :=
  fault.Foreseen ∧ ∃ taken put, Exchanged start taken put now

section Rules

variable {start : OperandStack} {taken put : List Category} {α : Type} {after : α → OperandStack → Prop}

theorem yields_peekAt (n : Nat) :
    Yields (Exchanged start taken put) (peekAt n) (fun _ => Exchanged start taken put)
      (Settled start) := by
  refine .get_bind fun now hnow => ?_
  cases now.items[n]? with
  | none => exact .throw fun s hs => ⟨⟨nofun, nofun⟩, taken, put, hs ▸ hnow⟩
  | some item => exact .pure fun s hs => hs ▸ hnow

theorem yields_pop :
    Yields (Exchanged start taken []) pop
      (fun item => Exchanged start (taken ++ [item.category]) []) (Settled start) := by
  refine .get_bind fun now hnow => ?_
  cases hitems : now.items with
  | nil => exact .throw fun s hs => ⟨⟨nofun, nofun⟩, taken, [], hs ▸ hnow⟩
  | cons item rest => exact fun s hs => hs ▸ hnow.take hitems

/-- An item that is taken was accepted. -/
theorem yields_popIf (expected : Subject) (accepts : StackItem → Bool) :
    Yields (Exchanged start taken []) (popIf expected accepts)
      (fun item now => accepts item = true ∧ Exchanged start (taken ++ [item.category]) [] now)
      (Settled start) := by
  intro now hnow
  cases hitems : now.items with
  | nil =>
      rw [popIf_nil hitems]
      exact ⟨⟨nofun, nofun⟩, taken, [], hnow⟩
  | cons item rest =>
      rw [popIf_cons hitems]
      split
      · rename_i haccepts
        exact ⟨haccepts, hnow.take hitems⟩
      · exact ⟨⟨nofun, nofun⟩, taken, [], hnow⟩

theorem yields_reserve (slots : UInt16) :
    Yields (Exchanged start taken put) (reserve slots)
      (fun _ now => Exchanged start taken put now ∧
        now.depth.toNat + slots.toNat ≤ now.maxStack.toNat)
      (Settled start) := by
  refine .get_bind fun now hnow => ?_
  split
  · exact .throw fun s hs => ⟨⟨nofun, nofun⟩, taken, put, hs ▸ hnow⟩
  · rename_i hroom
    exact .pure fun s hs => hs ▸ ⟨hnow, Nat.le_of_not_lt hroom⟩

theorem yields_push (item : StackItem) :
    Yields (Exchanged start taken put) (push item)
      (fun _ => Exchanged start taken (put ++ [item.category])) (Settled start) :=
  .bind (yields_reserve item.size) fun _ _ hs => hs.1.putOn hs.2

/-- There is no fault where there is room for all items. -/
theorem yields_pushAllReserved (items : List StackItem) :
    Yields
      (fun now => Exchanged start taken put now ∧ now.depth.toNat + slotsOf items ≤ now.maxStack.toNat)
      (pushAllReserved items)
      (fun _ => Exchanged start taken (put ++ items.map StackItem.category)) (fun _ _ => False) := by
  induction items generalizing put with
  | nil =>
      refine .pure fun now hnow => ?_
      rw [List.map_nil, List.append_nil]
      exact hnow.1
  | cons item rest ih =>
      have hpush : Yields (fun now => Exchanged start taken put now ∧
          now.depth.toNat + slotsOf (item :: rest) ≤ now.maxStack.toNat) (pushReserved item)
          (fun _ now => Exchanged start taken (put ++ [item.category]) now ∧
            now.depth.toNat + slotsOf rest ≤ now.maxStack.toNat) (fun _ _ => False) := by
        rintro now ⟨hnow, hroom⟩
        change now.depth.toNat + (item.size.toNat + slotsOf rest) ≤ now.maxStack.toNat at hroom
        have hitem : now.depth.toNat + item.size.toNat ≤ now.maxStack.toNat := by omega
        rw [pushReserved_run hitem]
        refine ⟨hnow.putOn hitem, ?_⟩
        have hlimit := now.maxStack.toNat_lt
        change (now.depth + item.size).toNat + slotsOf rest ≤ now.maxStack.toNat
        rw [UInt16.toNat_add, Nat.mod_eq_of_lt (by omega)]
        omega
      refine .bind hpush fun _ => ?_
      have hrest := @ih (put ++ [item.category])
      rwa [List.append_assoc, List.singleton_append] at hrest

/-- Joining items leaves their categories as they are. -/
theorem yields_merge (other : List StackItem) :
    Yields (Exchanged start taken put) (merge other) (fun _ => Exchanged start taken put)
      (Settled start) := by
  refine .get_bind fun now hnow => ?_
  cases hjoin : joinItems now.items other with
  | error fault =>
      exact .throw fun s hs => ⟨foresees_joinItems _ _ fault hjoin, taken, put, hs ▸ hnow⟩
  | ok items =>
      have hcategories : items.map StackItem.category = now.items.map StackItem.category := by
        simpa only [shapeOf, List.reverse_inj] using (joinItems_ok hjoin).2
      rintro _ rfl
      obtain ⟨kept, hbefore, hafter⟩ := hnow.items
      refine ⟨⟨kept, hbefore, hcategories.trans hafter⟩, hnow.maxStack, hnow.popped, hnow.pushed, ?_,
        hnow.sound.limit⟩
      exact (slotsOf_eq items).trans (hcategories ▸ (slotsOf_eq _).symm.trans hnow.sound.depth)

/-- What is known of an item that is looked at is checked again when it is taken. -/
theorem yields_peek_bind {n : Nat} {next : StackItem → StackOp α}
    (h : ∀ item, Yields (Exchanged start taken put) (next item) after (Settled start)) :
    Yields (Exchanged start taken put) (peekAt n >>= next) after (Settled start) :=
  .bind (yields_peekAt n) h

theorem yields_popIf_bind {expected : Subject} {accepts : StackItem → Bool} {next : StackItem → StackOp α}
    (h : ∀ item, accepts item = true →
      Yields (Exchanged start (taken ++ [item.category]) []) (next item) after (Settled start)) :
    Yields (Exchanged start taken []) (popIf expected accepts >>= next) after (Settled start) :=
  .bind (yields_popIf expected accepts) fun item now hnow => h item hnow.1 now hnow.2

/-- An item that takes one slot is taken. -/
theorem yields_popNarrow_bind {next : StackItem → StackOp α}
    (h : ∀ item : StackItem, item.category.size.toNat = 1 →
      Yields (Exchanged start (taken ++ [item.category]) []) (next item) after (Settled start)) :
    Yields (Exchanged start taken []) (popNarrow >>= next) after (Settled start) :=
  yields_popIf_bind fun item hitem => h item <| by
    rw [StackItem.isWide, Bool.not_eq_true'] at hitem
    rw [Category.size, hitem]
    rfl

/-- An item that takes two slots is taken. -/
theorem yields_popWide_bind {next : StackItem → StackOp α}
    (h : ∀ item : StackItem, item.category.size.toNat = 2 →
      Yields (Exchanged start (taken ++ [item.category]) []) (next item) after (Settled start)) :
    Yields (Exchanged start taken []) (popWide >>= next) after (Settled start) :=
  yields_popIf_bind fun item hitem => h item <| by
    rw [StackItem.isWide] at hitem
    rw [Category.size, hitem]
    rfl

theorem yields_reserve_bind {slots : UInt16} {next : Unit → StackOp α}
    (h : ∀ u, Yields (fun now => Exchanged start taken put now ∧
      now.depth.toNat + slots.toNat ≤ now.maxStack.toNat) (next u) after (Settled start)) :
    Yields (Exchanged start taken put) (reserve slots >>= next) after (Settled start) :=
  .bind (yields_reserve slots) h

/-- Items are put on a stack on which there is room for them. -/
theorem moves_pushAllReserved {items : List StackItem} {n m : Nat} (hn : Category.slots taken = n)
    (hm : Category.slots (items.map StackItem.category) = m) :
    Yields (fun now => Exchanged start taken [] now ∧ now.depth.toNat + m ≤ now.maxStack.toNat)
      (pushAllReserved items) (fun _ => Moved start n m) (Settled start) := by
  rintro now ⟨hnow, hroom⟩
  rw [← hm, ← slotsOf_eq] at hroom
  refine (yields_pushAllReserved items).mono (fun _ h => h) ?_ (fun _ _ h => h.elim) now ⟨hnow, hroom⟩
  exact fun _ now hnow => ⟨taken, _, hnow, hn, hm⟩

/-- Items are put back after others, and the form of the instruction is returned. -/
theorem moves_putBack {slots : UInt16} {items : List StackItem} {form : α} {n : Nat}
    (hn : Category.slots taken = n)
    (hslots : Category.slots (items.map StackItem.category) = slots.toNat) :
    Yields (Exchanged start taken [])
      (do
        reserve slots
        pushAllReserved items
        return form)
      (fun _ => Moved start n slots.toNat) (Settled start) :=
  yields_reserve_bind fun _ => .bind (moves_pushAllReserved hn hslots) fun _ => .pure fun _ h => h

end Rules

section Shuffles

variable {start : OperandStack}

theorem moves_pop2 : Yields (Exchanged start [] []) pop2 (fun _ => Moved start 2 0) (Settled start) := by
  refine yields_peek_bind fun top => ?_
  split
  · refine yields_popWide_bind fun a ha => .pure fun now hnow => ⟨_, _, hnow, ?_, rfl⟩
    simp [Category.slots, ha]
  · refine yields_popNarrow_bind fun a ha => yields_popNarrow_bind fun b hb => ?_
    refine .pure fun now hnow => ⟨_, _, hnow, ?_, rfl⟩
    simp [Category.slots, ha, hb]

theorem moves_dup : Yields (Exchanged start [] []) dup (fun _ => Moved start 1 2) (Settled start) :=
  yields_popNarrow_bind fun a ha => yields_reserve_bind fun _ =>
    moves_pushAllReserved (by simp [Category.slots, ha]) (by simp [Category.slots, ha])

theorem moves_dupX1 :
    Yields (Exchanged start [] []) dupX1 (fun _ => Moved start 2 3) (Settled start) :=
  yields_popNarrow_bind fun a ha => yields_popNarrow_bind fun b hb => yields_reserve_bind fun _ =>
    moves_pushAllReserved (by simp [Category.slots, ha, hb]) (by simp [Category.slots, ha, hb])

theorem moves_dupX2 :
    Yields (Exchanged start [] []) dupX2 (fun _ => Moved start 3 4) (Settled start) := by
  refine yields_peek_bind fun top => ?_
  split
  · exact .throw_bind fun now hnow => ⟨⟨nofun, nofun⟩, _, _, hnow⟩
  refine yields_peek_bind fun second => ?_
  split
  · exact yields_popNarrow_bind fun a ha => yields_popWide_bind fun b hb =>
      moves_putBack (by simp [Category.slots, ha, hb]) (by simp [Category.slots, ha, hb])
  · exact yields_popNarrow_bind fun a ha => yields_popNarrow_bind fun b hb =>
      yields_popNarrow_bind fun c hc =>
        moves_putBack (by simp [Category.slots, ha, hb, hc]) (by simp [Category.slots, ha, hb, hc])

theorem moves_dup2 : Yields (Exchanged start [] []) dup2 (fun _ => Moved start 2 4) (Settled start) := by
  refine yields_peek_bind fun top => ?_
  split
  · exact yields_popWide_bind fun a ha =>
      moves_putBack (by simp [Category.slots, ha]) (by simp [Category.slots, ha])
  · exact yields_popNarrow_bind fun a ha => yields_popNarrow_bind fun b hb =>
      moves_putBack (by simp [Category.slots, ha, hb]) (by simp [Category.slots, ha, hb])

theorem moves_dup2X1 :
    Yields (Exchanged start [] []) dup2X1 (fun _ => Moved start 3 5) (Settled start) := by
  refine yields_peek_bind fun top => ?_
  split
  · exact yields_popWide_bind fun a ha => yields_popNarrow_bind fun b hb =>
      moves_putBack (by simp [Category.slots, ha, hb]) (by simp [Category.slots, ha, hb])
  · exact yields_popNarrow_bind fun a ha => yields_popNarrow_bind fun b hb =>
      yields_popNarrow_bind fun c hc =>
        moves_putBack (by simp [Category.slots, ha, hb, hc]) (by simp [Category.slots, ha, hb, hc])

theorem moves_dup2X2 :
    Yields (Exchanged start [] []) dup2X2 (fun _ => Moved start 4 6) (Settled start) := by
  refine yields_peek_bind fun top => ?_
  split
  · refine yields_peek_bind fun second => ?_
    split
    · exact yields_popWide_bind fun a ha => yields_popWide_bind fun b hb =>
        moves_putBack (by simp [Category.slots, ha, hb]) (by simp [Category.slots, ha, hb])
    · exact yields_popWide_bind fun a ha => yields_popNarrow_bind fun b hb =>
        yields_popNarrow_bind fun c hc =>
          moves_putBack (by simp [Category.slots, ha, hb, hc]) (by simp [Category.slots, ha, hb, hc])
  · refine yields_peek_bind fun second => ?_
    split
    · exact .throw_bind fun now hnow => ⟨⟨nofun, nofun⟩, _, _, hnow⟩
    refine yields_peek_bind fun third => ?_
    split
    · exact yields_popNarrow_bind fun a ha => yields_popNarrow_bind fun b hb =>
        yields_popWide_bind fun c hc =>
          moves_putBack (by simp [Category.slots, ha, hb, hc]) (by simp [Category.slots, ha, hb, hc])
    · exact yields_popNarrow_bind fun a ha => yields_popNarrow_bind fun b hb =>
        yields_popNarrow_bind fun c hc => yields_popNarrow_bind fun d hd =>
          moves_putBack (by simp [Category.slots, ha, hb, hc, hd])
            (by simp [Category.slots, ha, hb, hc, hd])

/-- Exchanging two items needs no more room than they had. -/
theorem moves_swap (hstart : start.Sound) :
    Yields (Exchanged start [] []) swap (fun _ => Moved start 2 2) (Settled start) := by
  refine yields_popNarrow_bind fun a ha => yields_popNarrow_bind fun b hb => ?_
  have htaken : Category.slots ([] ++ [a.category] ++ [b.category]) = 2 := by
    simp [Category.slots, ha, hb]
  have hput : Category.slots ([a, b].map StackItem.category) = 2 := by simp [Category.slots, ha, hb]
  refine (moves_pushAllReserved htaken hput).mono (fun now hnow => ⟨hnow, ?_⟩) (fun _ _ h => h)
    fun _ _ h => h
  have hbalance := hnow.balance hstart
  have hlimit := hstart.limit
  rw [htaken, Category.slots_nil] at hbalance
  rw [hnow.maxStack]
  omega

end Shuffles

end OperandStack

/-- The slots that a stack instruction takes. -/
def ShuffleOp.slotsTaken : ShuffleOp → Nat
  | .pop | .dup => 1
  | .pop2 | .dupX1 | .dup2 | .swap => 2
  | .dupX2 | .dup2X1 => 3
  | .dup2X2 => 4

/-- The slots that a stack instruction puts back. -/
def ShuffleOp.slotsPut : ShuffleOp → Nat
  | .pop | .pop2 => 0
  | .dup | .swap => 2
  | .dupX1 => 3
  | .dupX2 | .dup2 => 4
  | .dup2X1 => 5
  | .dup2X2 => 6

open OperandStack in
theorem ShuffleOp.moves_run {start : OperandStack} (hstart : start.Sound) (op : ShuffleOp) :
    Yields (Exchanged start [] []) op.run (fun _ => Moved start op.slotsTaken op.slotsPut)
      (Settled start) := by
  cases op with
  | pop =>
      refine yields_popNarrow_bind fun a ha => .pure fun now hnow => ⟨_, _, hnow, ?_, rfl⟩
      simp [Category.slots, ha, slotsTaken]
  | pop2 => exact .bind moves_pop2 fun _ => .pure fun _ h => h
  | dup => exact .bind moves_dup fun _ => .pure fun _ h => h
  | dupX1 => exact .bind moves_dupX1 fun _ => .pure fun _ h => h
  | dupX2 => exact .bind moves_dupX2 fun _ => .pure fun _ h => h
  | dup2 => exact .bind moves_dup2 fun _ => .pure fun _ h => h
  | dup2X1 => exact .bind moves_dup2X1 fun _ => .pure fun _ h => h
  | dup2X2 => exact .bind moves_dup2X2 fun _ => .pure fun _ h => h
  | swap => exact .bind (moves_swap hstart) fun _ => .pure fun _ h => h

end ClassFile
