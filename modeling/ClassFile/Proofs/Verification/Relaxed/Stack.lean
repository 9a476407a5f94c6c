import Mathlib.Data.List.Forall2
import ClassFile.Proofs.Simulation
import ClassFile.Proofs.Verification.Entry

/-! Operand stacks of which less is known. A relaxed stack holds values of the same categories, but it may
have forgotten the types of references and where values came from, and it may have more room. No operation
tells it from the stricter one, as long as that one is not refused. -/

namespace ClassFile

namespace StackItem

/-- A value of which less is known: a type that the first one has may be missing from the second one, and
where the values came from does not matter. -/
inductive Relaxed : StackItem → StackItem → Prop
  | numeric (kind : NumericKind) (p q : Provenance) : Relaxed (.numeric kind p) (.numeric kind q)
  | reference (p q : Provenance) {type known : Option ReturnType} (h : known = none ∨ known = type) :
    Relaxed (.reference p type) (.reference q known)
  | returnAddress (target : UInt16) : Relaxed (.returnAddress target) (.returnAddress target)

theorem merge_numeric (kind : NumericKind) (p : Provenance) (b : StackItem) :
    ∃ r, merge (.numeric kind p) b = .numeric kind r := by
  unfold merge
  split
  · exact ⟨p, rfl⟩
  · cases b <;> exact ⟨_, rfl⟩

theorem merge_returnAddress (target : UInt16) (b : StackItem) :
    merge (.returnAddress target) b = .returnAddress target := by
  unfold merge
  split
  · rfl
  · cases b <;> rfl

/-- The join of references has their common type, if there is one. -/
theorem merge_reference (p q : Provenance) (s t : Option ReturnType) :
    ∃ r, merge (.reference p s) (.reference q t) = .reference r (if s = t then s else none) := by
  unfold merge
  split
  · rename_i hsame
    cases hsame
    exact ⟨p, by rw [if_pos rfl]⟩
  · exact ⟨_, rfl⟩

namespace Relaxed

variable {a b a' b' : StackItem}

theorem refl (a : StackItem) : Relaxed a a := by
  cases a with
  | numeric kind p => exact .numeric kind p p
  | reference p type => exact .reference p p (.inr rfl)
  | returnAddress target => exact .returnAddress target

theorem category (h : Relaxed a b) : b.category = a.category := by
  cases h <;> rfl

theorem size (h : Relaxed a b) : b.size = a.size := by
  rw [StackItem.size, h.category, StackItem.size]

theorem isWide (h : Relaxed a b) : b.isWide = a.isWide := by
  rw [StackItem.isWide, h.category, StackItem.isWide]

/-- The join of values knows no more than the join of those of which more is known. -/
theorem merge (ha : Relaxed a a') (hb : Relaxed b b') : Relaxed (a.merge b) (a'.merge b') := by
  cases ha with
  | numeric kind p q =>
      obtain ⟨r, hr⟩ := merge_numeric kind p b
      obtain ⟨r', hr'⟩ := merge_numeric kind q b'
      rw [hr, hr']
      exact .numeric kind r r'
  | returnAddress target =>
      rw [merge_returnAddress, merge_returnAddress]
      exact .returnAddress target
  | @reference p q type known h =>
      cases hb with
      | numeric kind p' q' => exact .reference p q h
      | returnAddress target => exact .reference p q h
      | @reference p' q' type' known' h' =>
          obtain ⟨r, hr⟩ := merge_reference p p' type type'
          obtain ⟨r', hr'⟩ := merge_reference q q' known known'
          rw [hr, hr']
          refine .reference r r' ?_
          rcases h with rfl | rfl
          · exact .inl (by split <;> rfl)
          · rcases h' with rfl | rfl
            · exact .inl (by split <;> simp_all)
            · exact .inr rfl

theorem ofObject {type known : Option FieldType} (h : known = none ∨ known = type) (p q : Provenance) :
    Relaxed (.ofObject type p) (.ofObject known q) := by
  refine .reference p q ?_
  rcases h with rfl | rfl
  · exact .inl rfl
  · exact .inr rfl

end Relaxed

end StackItem

/-- Items that stand in the same places, of which less is known. -/
abbrev RelaxedItems : List StackItem → List StackItem → Prop := List.Forall₂ StackItem.Relaxed

namespace RelaxedItems

variable {items items' other other' : List StackItem}

theorem refl (items : List StackItem) : RelaxedItems items items :=
  List.forall₂_same.mpr fun item _ => .refl item

theorem shape (h : RelaxedItems items items') : shapeOf items' = shapeOf items := by
  have hcategories : items'.map StackItem.category = items.map StackItem.category := by
    induction h with
    | nil => rfl
    | cons hitem _ ih => rw [List.map_cons, List.map_cons, hitem.category, ih]
  rw [shapeOf, hcategories, shapeOf]

theorem slotsOf (h : RelaxedItems items items') : OperandStack.slotsOf items' = OperandStack.slotsOf items := by
  induction h with
  | nil => rfl
  | @cons item item' rest rest' hitem _ ih =>
      change item'.size.toNat + OperandStack.slotsOf rest' = item.size.toNat + OperandStack.slotsOf rest
      rw [hitem.size, ih]

theorem zipWith_merge (h : RelaxedItems items items') (hother : RelaxedItems other other') :
    RelaxedItems (List.zipWith StackItem.merge items other) (List.zipWith StackItem.merge items' other') := by
  induction h generalizing other other' with
  | nil => exact .nil
  | cons hitem _ ih =>
      cases hother with
      | nil => exact .nil
      | cons hother hrest => exact .cons (hitem.merge hother) (ih hrest)

theorem join (h : RelaxedItems items items') (hother : RelaxedItems other other') :
    Entails RelaxedItems (joinItems items other) (joinItems items' other') := by
  unfold joinItems
  rw [h.shape, hother.shape]
  exact .bind_same fun _ => .ok (h.zipWith_merge hother)

theorem joinWithin (h : RelaxedItems items items') {few many : UInt16} (hlimit : few ≤ many)
    (hother : RelaxedItems other other') :
    Entails RelaxedItems (OperandStack.joinWithin few items other)
      (OperandStack.joinWithin many items' other') := by
  have hle := UInt16.le_iff_toNat_le.mp hlimit
  rw [OperandStack.joinWithin_eq, OperandStack.joinWithin_eq, h.slotsOf]
  split
  · exact .error
  · rw [if_neg (by omega)]
    exact h.join hother

theorem getElem? (h : RelaxedItems items items') (n : Nat) :
    Option.Rel StackItem.Relaxed items[n]? items'[n]? := by
  induction h generalizing n with
  | nil => exact .none
  | cons hitem _ ih =>
      cases n with
      | zero => exact .some hitem
      | succ n => exact ih n

end RelaxedItems

namespace OperandStack

/-- A stack of which less is known, and which may have more room. Its slots are counted in the same way. -/
structure Relaxed (stack relaxed : OperandStack) : Prop where
  items : RelaxedItems stack.items relaxed.items
  depth : relaxed.depth = stack.depth
  maxStack : stack.maxStack ≤ relaxed.maxStack
  popped : relaxed.popped = stack.popped
  pushed : relaxed.pushed = stack.pushed

/-- What an operation does to a stack, another one does to every relaxed stack. -/
abbrev FollowsRelaxed {α : Type} (same : α → α → Prop) : StackOp α → StackOp α → Prop :=
  Follows Relaxed same

variable {α : Type} {same : α → α → Prop}

theorem Relaxed.empty {maxStack maxStack' : UInt16} (h : maxStack ≤ maxStack') :
    Relaxed (.empty maxStack) (.empty maxStack') := ⟨.nil, rfl, h, rfl, rfl⟩

theorem Relaxed.shape {s t : OperandStack} (h : Relaxed s t) : t.shape = s.shape := h.items.shape

theorem Relaxed.effect {s t : OperandStack} (h : Relaxed s t) : t.effect = s.effect := by
  rw [OperandStack.effect, h.popped, h.pushed, OperandStack.effect]

theorem Relaxed.beginInstruction {s t : OperandStack} (h : Relaxed s t) :
    Relaxed s.beginInstruction t.beginInstruction := ⟨h.items, h.depth, h.maxStack, rfl, rfl⟩

theorem follows_peekAt (n : Nat) : FollowsRelaxed StackItem.Relaxed (peekAt n) (peekAt n) := by
  refine .get_bind fun s t hst => ?_
  cases hs : s.items[n]? with
  | none => exact .throw
  | some item =>
      have hitem := hst.items.getElem? n
      rw [hs] at hitem
      generalize t.items[n]? = found at hitem
      cases hitem with
      | some hitem => exact .pure hitem

theorem follows_pop : FollowsRelaxed StackItem.Relaxed pop pop := by
  rintro s t hst item s' hrun
  unfold pop at hrun ⊢
  rw [get_bind_run] at hrun ⊢
  cases hitems : s.items with
  | nil =>
      rw [hitems] at hrun
      cases hrun
  | cons top rest =>
      have hrelaxed := hst.items
      rw [hitems] at hrun hrelaxed
      cases hrun
      cases htitems : t.items with
      | nil =>
          rw [htitems] at hrelaxed
          cases hrelaxed
      | cons top' rest' =>
          rw [htitems] at hrelaxed
          cases hrelaxed with
          | cons htop hrest =>
              refine ⟨top', _, rfl, htop, hrest, ?_, hst.maxStack, ?_, hst.pushed⟩
              · change t.depth - top'.size = s.depth - item.size
                rw [hst.depth, htop.size]
              · change t.popped + top'.size = s.popped + item.size
                rw [hst.popped, htop.size]

theorem follows_popIf {expected : Subject} {accepts : StackItem → Bool}
    (h : ∀ a b, StackItem.Relaxed a b → accepts b = accepts a) :
    FollowsRelaxed StackItem.Relaxed (popIf expected accepts) (popIf expected accepts) := by
  refine .bind (follows_peekAt 0) fun a b hab => ?_
  rw [h a b hab]
  split
  · exact follows_pop
  · exact .throw

theorem follows_popNarrow : FollowsRelaxed StackItem.Relaxed popNarrow popNarrow :=
  follows_popIf fun _ _ hab => by rw [hab.isWide]

theorem follows_popWide : FollowsRelaxed StackItem.Relaxed popWide popWide :=
  follows_popIf fun _ _ hab => hab.isWide

theorem follows_popNumeric (c : Category) :
    FollowsRelaxed StackItem.Relaxed (popNumeric c) (popNumeric c) :=
  follows_popIf fun _ _ hab => by cases hab <;> rfl

theorem follows_popReference : FollowsRelaxed StackItem.Relaxed popReference popReference :=
  follows_popIf fun _ _ hab => by cases hab <;> rfl

theorem follows_popReturnAddress :
    FollowsRelaxed StackItem.Relaxed popReturnAddress popReturnAddress :=
  follows_popIf fun _ _ hab => by cases hab <;> rfl

theorem follows_popValue (c : Category) :
    FollowsRelaxed StackItem.Relaxed (popValue c) (popValue c) := by
  cases c with
  | reference => exact follows_popReference
  | returnAddress => exact follows_popReturnAddress
  | _ => exact follows_popNumeric _

theorem follows_reserve (slots : UInt16) : FollowsRelaxed Eq (reserve slots) (reserve slots) := by
  refine .get_bind fun s t hst => ?_
  have hlimit := UInt16.le_iff_toNat_le.mp hst.maxStack
  rw [hst.depth]
  split
  · exact .throw
  · rw [if_neg (by omega)]
    exact .pure rfl

theorem follows_push {a b : StackItem} (h : StackItem.Relaxed a b) :
    FollowsRelaxed Eq (push a) (push b) := by
  unfold push
  rw [h.size]
  refine .bind (follows_reserve a.size) fun _ _ _ => ?_
  rintro s t hst _ _ ⟨⟩
  refine ⟨(), _, rfl, rfl, .cons h hst.items, ?_, hst.maxStack, hst.popped, ?_⟩
  · change t.depth + a.size = s.depth + a.size
    rw [hst.depth]
  · change t.pushed + a.size = s.pushed + a.size
    rw [hst.pushed]

theorem follows_pushReserved {a b : StackItem} (h : StackItem.Relaxed a b) :
    FollowsRelaxed Eq (pushReserved a) (pushReserved b) := by
  intro s t hst _ s' hrun
  unfold pushReserved at hrun ⊢
  cases hpush : push a s with
  | error fault s'' =>
      rw [hpush] at hrun
      cases hrun
  | ok _ s'' =>
      rw [hpush] at hrun
      cases hrun
      obtain ⟨_, t', hpush', hrest⟩ := follows_push h s t hst () s' hpush
      exact ⟨(), t', by rw [hpush'], hrest⟩

theorem follows_pushAllReserved {items items' : List StackItem} (h : RelaxedItems items items') :
    FollowsRelaxed Eq (pushAllReserved items) (pushAllReserved items') := by
  induction h with
  | nil => exact .pure rfl
  | cons hitem _ ih => exact .bind (follows_pushReserved hitem) fun _ _ _ => ih

theorem follows_unchanged : FollowsRelaxed Eq unchanged unchanged := by
  refine .get_bind fun s t hst => ?_
  rw [hst.popped, hst.pushed]
  split
  · exact .throw
  · exact .pure rfl

theorem follows_replaceWith {items items' : List StackItem} (h : RelaxedItems items items') :
    FollowsRelaxed Eq (replaceWith items) (replaceWith items') := by
  refine .get_bind fun s t hst => ?_
  have hlimit := UInt16.le_iff_toNat_le.mp hst.maxStack
  rw [h.slotsOf]
  split
  · exact .throw
  · rw [if_neg (by omega)]
    rintro _ _ _ _ _ ⟨⟩
    exact ⟨(), _, rfl, rfl, h, rfl, hst.maxStack, hst.popped, hst.pushed⟩

theorem follows_merge {other other' : List StackItem} (h : RelaxedItems other other') :
    FollowsRelaxed Eq (merge other) (merge other') := by
  refine .get_bind fun s t hst => ?_
  cases hjoin : joinItems s.items other with
  | error fault => exact .throw
  | ok items =>
      obtain ⟨items', hjoin', hitems⟩ := hst.items.join h items hjoin
      rw [hjoin']
      rintro _ _ _ _ _ ⟨⟩
      exact ⟨(), _, rfl, rfl, hitems, hst.depth, hst.maxStack, hst.popped, hst.pushed⟩

section Shuffles

variable {next next' : StackItem → StackOp α}

/-- What is decided by the size of an item that is looked at is decided alike. -/
theorem follows_peekAt_bind (n : Nat)
    (h : ∀ a b, StackItem.Relaxed a b → FollowsRelaxed same (next a) (next' b)) :
    FollowsRelaxed same (peekAt n >>= next) (peekAt n >>= next') := .bind (follows_peekAt n) h

theorem follows_popNarrow_bind
    (h : ∀ a b, StackItem.Relaxed a b → FollowsRelaxed same (next a) (next' b)) :
    FollowsRelaxed same (popNarrow >>= next) (popNarrow >>= next') := .bind follows_popNarrow h

theorem follows_popWide_bind
    (h : ∀ a b, StackItem.Relaxed a b → FollowsRelaxed same (next a) (next' b)) :
    FollowsRelaxed same (popWide >>= next) (popWide >>= next') := .bind follows_popWide h

/-- Items are put back where there is room for them. -/
theorem follows_putBack {slots : UInt16} {items items' : List StackItem} {form : α}
    (h : RelaxedItems items items') :
    FollowsRelaxed Eq
      (do
        reserve slots
        pushAllReserved items
        return form)
      (do
        reserve slots
        pushAllReserved items'
        return form) :=
  .bind (follows_reserve slots) fun _ _ _ => .bind (follows_pushAllReserved h) fun _ _ _ => .pure rfl

theorem follows_pop2 : FollowsRelaxed Eq pop2 pop2 := by
  refine follows_peekAt_bind 0 fun top top' htop => ?_
  rw [htop.isWide]
  split
  · exact follows_popWide_bind fun _ _ _ => .pure rfl
  · exact follows_popNarrow_bind fun _ _ _ => follows_popNarrow_bind fun _ _ _ => .pure rfl

theorem follows_dup : FollowsRelaxed Eq dup dup :=
  follows_popNarrow_bind fun _ _ ha => .bind (follows_reserve 2) fun _ _ _ =>
    follows_pushAllReserved (.cons ha (.cons ha .nil))

theorem follows_dupX1 : FollowsRelaxed Eq dupX1 dupX1 :=
  follows_popNarrow_bind fun _ _ ha => follows_popNarrow_bind fun _ _ hb =>
    .bind (follows_reserve 3) fun _ _ _ =>
      follows_pushAllReserved (.cons ha (.cons hb (.cons ha .nil)))

theorem follows_dupX2 : FollowsRelaxed Eq dupX2 dupX2 := by
  refine follows_peekAt_bind 0 fun top top' htop => ?_
  rw [htop.isWide]
  split
  · exact .throw_bind
  refine follows_peekAt_bind 1 fun second second' hsecond => ?_
  rw [hsecond.isWide]
  split
  · exact follows_popNarrow_bind fun _ _ ha => follows_popWide_bind fun _ _ hb =>
      follows_putBack (.cons ha (.cons hb (.cons ha .nil)))
  · exact follows_popNarrow_bind fun _ _ ha => follows_popNarrow_bind fun _ _ hb =>
      follows_popNarrow_bind fun _ _ hc =>
        follows_putBack (.cons ha (.cons hc (.cons hb (.cons ha .nil))))

theorem follows_dup2 : FollowsRelaxed Eq dup2 dup2 := by
  refine follows_peekAt_bind 0 fun top top' htop => ?_
  rw [htop.isWide]
  split
  · exact follows_popWide_bind fun _ _ ha => follows_putBack (.cons ha (.cons ha .nil))
  · exact follows_popNarrow_bind fun _ _ ha => follows_popNarrow_bind fun _ _ hb =>
      follows_putBack (.cons hb (.cons ha (.cons hb (.cons ha .nil))))

theorem follows_dup2X1 : FollowsRelaxed Eq dup2X1 dup2X1 := by
  refine follows_peekAt_bind 0 fun top top' htop => ?_
  rw [htop.isWide]
  split
  · exact follows_popWide_bind fun _ _ ha => follows_popNarrow_bind fun _ _ hb =>
      follows_putBack (.cons ha (.cons hb (.cons ha .nil)))
  · exact follows_popNarrow_bind fun _ _ ha => follows_popNarrow_bind fun _ _ hb =>
      follows_popNarrow_bind fun _ _ hc =>
        follows_putBack (.cons hb (.cons ha (.cons hc (.cons hb (.cons ha .nil)))))

theorem follows_dup2X2 : FollowsRelaxed Eq dup2X2 dup2X2 := by
  refine follows_peekAt_bind 0 fun top top' htop => ?_
  rw [htop.isWide]
  split
  · refine follows_peekAt_bind 1 fun second second' hsecond => ?_
    rw [hsecond.isWide]
    split
    · exact follows_popWide_bind fun _ _ ha => follows_popWide_bind fun _ _ hb =>
        follows_putBack (.cons ha (.cons hb (.cons ha .nil)))
    · exact follows_popWide_bind fun _ _ ha => follows_popNarrow_bind fun _ _ hb =>
        follows_popNarrow_bind fun _ _ hc =>
          follows_putBack (.cons ha (.cons hc (.cons hb (.cons ha .nil))))
  · refine follows_peekAt_bind 1 fun second second' hsecond => ?_
    rw [hsecond.isWide]
    split
    · exact .throw_bind
    refine follows_peekAt_bind 2 fun third third' hthird => ?_
    rw [hthird.isWide]
    split
    · exact follows_popNarrow_bind fun _ _ ha => follows_popNarrow_bind fun _ _ hb =>
        follows_popWide_bind fun _ _ hc =>
          follows_putBack (.cons hb (.cons ha (.cons hc (.cons hb (.cons ha .nil)))))
    · exact follows_popNarrow_bind fun _ _ ha => follows_popNarrow_bind fun _ _ hb =>
        follows_popNarrow_bind fun _ _ hc => follows_popNarrow_bind fun _ _ hd =>
          follows_putBack (.cons hb (.cons ha (.cons hd (.cons hc (.cons hb (.cons ha .nil))))))

theorem follows_swap : FollowsRelaxed Eq swap swap :=
  follows_popNarrow_bind fun _ _ ha => follows_popNarrow_bind fun _ _ hb =>
    follows_pushAllReserved (.cons ha (.cons hb .nil))

end Shuffles

end OperandStack

open OperandStack in
/-- A stack instruction has the same form on a relaxed stack. -/
theorem ShuffleOp.follows_run (op : ShuffleOp) : FollowsRelaxed Eq op.run op.run := by
  cases op with
  | pop => exact follows_popNarrow_bind fun _ _ _ => .pure rfl
  | pop2 => exact .bind follows_pop2 fun _ _ h => .pure (h ▸ rfl)
  | dup => exact .bind follows_dup fun _ _ _ => .pure rfl
  | dupX1 => exact .bind follows_dupX1 fun _ _ _ => .pure rfl
  | dupX2 => exact .bind follows_dupX2 fun _ _ h => .pure (h ▸ rfl)
  | dup2 => exact .bind follows_dup2 fun _ _ h => .pure (h ▸ rfl)
  | dup2X1 => exact .bind follows_dup2X1 fun _ _ h => .pure (h ▸ rfl)
  | dup2X2 => exact .bind follows_dup2X2 fun _ _ h => .pure (h ▸ rfl)
  | swap => exact .bind follows_swap fun _ _ _ => .pure rfl

end ClassFile
