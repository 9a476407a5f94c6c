import ClassFile.Proofs.Verification.Entry
import ClassFile.Proofs.Verification.Slots

/-! What an instruction's branches leave behind. A branch back found its target entered with the same shape.
A branch forward leaves at its target something that stands for what it brings, and for all that was
brought there before. -/

namespace ClassFile

namespace Locals

theorem slot_merge {locals other : Locals} (hsize : locals.slots.size = other.slots.size)
    (index : Nat) :
    (locals.merge other).slot index =
      if locals.slot index = other.slot index then locals.slot index else .unknown := by
  by_cases hindex : index < locals.slots.size
  · have hother : index < other.slots.size := hsize ▸ hindex
    simp only [slot, merge, Array.getD_eq_getD_getElem?, Array.getElem?_mapIdx,
      Array.getElem?_eq_getElem hindex, Array.getElem?_eq_getElem hother, Option.map_some,
      Option.getD_some]
  · have hmerged : (locals.merge other).slots.size ≤ index := by
      rw [merge, Array.size_mapIdx]
      omega
    rw [slot_eq_unset hmerged, slot_eq_unset (Nat.le_of_not_lt hindex), slot_eq_unset (by omega),
      if_pos rfl]

@[simp] theorem size_merge (locals other : Locals) :
    (locals.merge other).slots.size = locals.slots.size := by
  rw [merge, Array.size_mapIdx]

/-- Local variables stand for others if the others hold every value that they say is there. -/
structure Admits (known found : Locals) : Prop where
  size : known.slots.size = found.slots.size
  value : ∀ index c, known.slot index = .value c → found.slot index = .value c

namespace Admits

variable {a b c : Locals}

theorem refl (a : Locals) : Admits a a := ⟨rfl, fun _ _ h => h⟩

theorem trans (hab : Admits a b) (hbc : Admits b c) : Admits a c :=
  ⟨hab.size.trans hbc.size, fun index k h => hbc.value index k (hab.value index k h)⟩

theorem merge_left (hsize : a.slots.size = b.slots.size) : Admits (a.merge b) a := by
  refine ⟨size_merge a b, fun index k h => ?_⟩
  rw [slot_merge hsize] at h
  split at h
  · exact h
  · cases h

theorem merge_right (hsize : a.slots.size = b.slots.size) : Admits (a.merge b) b := by
  refine ⟨(size_merge a b).trans hsize, fun index k h => ?_⟩
  rw [slot_merge hsize] at h
  split at h
  · rename_i hsame
    rwa [← hsame]
  · cases h

end Admits

end Locals

/-- What branches bring to an offset stands for a shape and for local variables that were brought there. -/
structure Arrival.Admits (arrival : Arrival) (shape : List Category) (locals : Locals) : Prop where
  shape : shapeOf arrival.items = shape
  locals : arrival.locals.Admits locals

theorem Arrival.Admits.trans {a b : Arrival} {shape : List Category} {locals : Locals}
    (hab : a.Admits (shapeOf b.items) b.locals) (hb : b.Admits shape locals) :
    a.Admits shape locals :=
  ⟨hab.shape.trans hb.shape, hab.locals.trans hb.locals⟩

namespace Pass

/-- The local variables that branches bring all have a number of slots. -/
def ArrivalsHave (size : Nat) (pass : Pass) : Prop :=
  ∀ pc arrival, pass.arrivalAt? pc = some arrival → arrival.locals.slots.size = size

/-- A branch back goes to an instruction that was entered with the same shape, and with local variables
that what is brought back can take the place of. -/
structure GoesBack (pass : Pass) (t : Transition) (target : UInt16) (entered : Machine) : Prop where
  entry : (if target = t.pc then some t.before else entryAt? pass.steps target) = some entered
  shape : entered.stack.shape = t.after.stack.shape
  loop : checkLoop entered.locals t.after.locals (bodyFrom pass.steps target) = .ok ()

/-- What following branches comes to. -/
structure Branched (t : Transition) (targets : List UInt16) (pass next : Pass) : Prop where
  steps : next.steps = pass.steps
  back : ∀ target ∈ targets, target ≤ t.pc → ∃ entered, GoesBack pass t target entered
  forward : ∀ target ∈ targets, t.pc < target →
    ∃ arrival, next.arrivalAt? target = some arrival ∧
      arrival.Admits t.after.stack.shape t.after.locals
  kept : ∀ pc known, pass.arrivalAt? pc = some known →
    ∃ arrival, next.arrivalAt? pc = some arrival ∧ arrival.Admits (shapeOf known.items) known.locals
  caused : ∀ pc arrival, next.arrivalAt? pc = some arrival →
    (∃ known, pass.arrivalAt? pc = some known) ∨ (pc ∈ targets ∧ t.pc < pc)

variable {t : Transition} {pass next : Pass} {target : UInt16} {size : Nat}

theorem arrivalAt?_cons (pass : Pass) (target pc : UInt16) (arrival : Arrival) :
    ({ pass with arrivals := (target, arrival) :: pass.arrivals } : Pass).arrivalAt? pc =
      if pc = target then some arrival else pass.arrivalAt? pc := by
  unfold arrivalAt?
  rw [List.lookup_cons]
  by_cases h : pc = target
  · simp [h]
  · rw [if_neg h, beq_false_of_ne h]

theorem branchBack_ok (htarget : target ≤ t.pc) (h : pass.branchBack t target = .ok next) :
    Branched t [target] pass next ∧ next.arrivals = pass.arrivals := by
  unfold branchBack at h
  cases hentry : (if target = t.pc then some t.before else entryAt? pass.steps target) with
  | none => simp [hentry] at h
  | some entered =>
      simp only [hentry] at h
      obtain ⟨_, hshape, h⟩ := bind_ok.mp h
      obtain ⟨_, hloop, h⟩ := bind_ok.mp h
      cases h
      refine ⟨⟨rfl, ?_, ?_, ?_, ?_⟩, rfl⟩
      · intro target' hmem _
        rw [List.mem_singleton] at hmem
        subst hmem
        exact ⟨entered, hentry, checkShape_ok.mp hshape, hloop⟩
      · intro target' hmem hlt
        rw [List.mem_singleton] at hmem
        subst hmem
        exact absurd hlt (UInt16.not_lt.mpr htarget)
      · exact fun pc known hknown => ⟨known, hknown, rfl, .refl _⟩
      · exact fun pc arrival harrival => .inl ⟨arrival, harrival⟩

theorem branchForward_ok (htarget : t.pc < target) (hsize : pass.ArrivalsHave size)
    (hafter : t.after.locals.slots.size = size) (h : pass.branchForward t target = .ok next) :
    Branched t [target] pass next ∧ next.ArrivalsHave size := by
  have hback : ∀ target' ∈ [target], target' ≤ t.pc → ∃ entered, GoesBack pass t target' entered := by
    intro target' hmem hle
    rw [List.mem_singleton] at hmem
    subst hmem
    exact absurd hle (UInt16.not_le.mpr htarget)
  unfold branchForward at h
  -- Either way the target now has an entry that stands for what was there and for what the branch brings.
  have key : ∀ found : Arrival, found.locals.slots.size = size →
      found.Admits t.after.stack.shape t.after.locals →
      (∀ known, pass.arrivalAt? target = some known →
        found.Admits (shapeOf known.items) known.locals) →
      Branched t [target] pass { pass with arrivals := (target, found) :: pass.arrivals } ∧
        ArrivalsHave size { pass with arrivals := (target, found) :: pass.arrivals } := by
    intro found hfound hbrought hthere
    refine ⟨⟨rfl, hback, ?_, ?_, ?_⟩, ?_⟩
    · intro target' hmem _
      rw [List.mem_singleton] at hmem
      subst hmem
      exact ⟨found, by rw [arrivalAt?_cons, if_pos rfl], hbrought⟩
    · intro pc known hknown
      by_cases hpc : pc = target
      · subst hpc
        exact ⟨found, by rw [arrivalAt?_cons, if_pos rfl], hthere known hknown⟩
      · exact ⟨known, by rw [arrivalAt?_cons, if_neg hpc, hknown], rfl, .refl _⟩
    · intro pc arrival harrival
      by_cases hpc : pc = target
      · exact .inr ⟨by rw [hpc]; exact List.mem_singleton_self target, hpc ▸ htarget⟩
      · rw [arrivalAt?_cons, if_neg hpc] at harrival
        exact .inl ⟨arrival, harrival⟩
    · intro pc arrival harrival
      by_cases hpc : pc = target
      · rw [arrivalAt?_cons, if_pos hpc, Option.some.injEq] at harrival
        rw [← harrival, hfound]
      · rw [arrivalAt?_cons, if_neg hpc] at harrival
        exact hsize pc arrival harrival
  cases hknown : pass.arrivalAt? target with
  | none =>
      simp only [hknown] at h
      cases h
      refine key _ hafter ⟨rfl, .refl _⟩ fun known hother => ?_
      rw [hknown] at hother
      cases hother
  | some known =>
      simp only [hknown] at h
      obtain ⟨items, hjoin, h⟩ := bind_ok.mp h
      cases h
      obtain ⟨hagrees, hitems⟩ := joinItems_ok (OperandStack.joinWithin_ok.mp hjoin).2
      have hlocals : known.locals.slots.size = t.after.locals.slots.size :=
        (hsize target known hknown).trans hafter.symm
      refine key _ ((Locals.size_merge _ _).trans (hsize target known hknown))
        ⟨hitems.trans hagrees.symm, .merge_right hlocals⟩ fun other hother => ?_
      rw [hknown, Option.some.injEq] at hother
      subst hother
      exact ⟨hitems, .merge_left hlocals⟩

theorem branch_ok (hsize : pass.ArrivalsHave size) (hafter : t.after.locals.slots.size = size)
    (h : branch t pass target = .ok next) : Branched t [target] pass next ∧ next.ArrivalsHave size := by
  unfold branch at h
  by_cases htarget : target ≤ t.pc
  · rw [if_pos htarget] at h
    obtain ⟨hbranched, harrivals⟩ := branchBack_ok htarget h
    refine ⟨hbranched, fun pc arrival harrival => ?_⟩
    rw [arrivalAt?, harrivals] at harrival
    exact hsize pc arrival harrival
  · rw [if_neg htarget] at h
    exact branchForward_ok (UInt16.not_le.mp htarget) hsize hafter h

theorem Branched.nil (t : Transition) (pass : Pass) : Branched t [] pass pass := by
  refine ⟨rfl, ?_, ?_, ?_, ?_⟩
  · exact fun _ hmem => absurd hmem List.not_mem_nil
  · exact fun _ hmem => absurd hmem List.not_mem_nil
  · exact fun pc known hknown => ⟨known, hknown, rfl, .refl _⟩
  · exact fun pc arrival harrival => .inl ⟨arrival, harrival⟩

theorem Branched.cons {middle : Pass} {targets : List UInt16}
    (hfirst : Branched t [target] pass middle) (hrest : Branched t targets middle next) :
    Branched t (target :: targets) pass next := by
  refine ⟨hrest.steps.trans hfirst.steps, ?_, ?_, ?_, ?_⟩
  · intro target' hmem hle
    rcases List.mem_cons.mp hmem with rfl | hmem
    · exact hfirst.back _ (List.mem_singleton_self _) hle
    · obtain ⟨entered, hentry, hshape, hloop⟩ := hrest.back _ hmem hle
      rw [hfirst.steps] at hentry hloop
      exact ⟨entered, hentry, hshape, hloop⟩
  · intro target' hmem hlt
    rcases List.mem_cons.mp hmem with rfl | hmem
    · obtain ⟨arrival, harrival, hadmits⟩ := hfirst.forward _ (List.mem_singleton_self _) hlt
      obtain ⟨arrival', harrival', hadmits'⟩ := hrest.kept _ _ harrival
      exact ⟨arrival', harrival', hadmits'.trans hadmits⟩
    · exact hrest.forward _ hmem hlt
  · intro pc known hknown
    obtain ⟨arrival, harrival, hadmits⟩ := hfirst.kept pc known hknown
    obtain ⟨arrival', harrival', hadmits'⟩ := hrest.kept pc arrival harrival
    exact ⟨arrival', harrival', hadmits'.trans hadmits⟩
  · intro pc arrival harrival
    rcases hrest.caused pc arrival harrival with ⟨known, hknown⟩ | ⟨hmem, hlt⟩
    · rcases hfirst.caused pc known hknown with hthere | ⟨hmem, hlt⟩
      · exact .inl hthere
      · rw [List.mem_singleton] at hmem
        exact .inr ⟨hmem ▸ List.mem_cons_self, hlt⟩
    · exact .inr ⟨List.mem_cons_of_mem _ hmem, hlt⟩

theorem branches_ok {targets : List UInt16} (hsize : pass.ArrivalsHave size)
    (hafter : t.after.locals.slots.size = size) (h : targets.foldlM (branch t) pass = .ok next) :
    Branched t targets pass next ∧ next.ArrivalsHave size := by
  induction targets generalizing pass with
  | nil =>
      cases h
      exact ⟨.nil t _, hsize⟩
  | cons target rest ih =>
      rw [List.foldlM_cons] at h
      obtain ⟨middle, hfirst, hrest⟩ := bind_ok.mp h
      obtain ⟨hbranched, hmiddle⟩ := branch_ok hsize hafter hfirst
      obtain ⟨hbranched', hnext⟩ := ih hmiddle hrest
      exact ⟨hbranched.cons hbranched', hnext⟩

end Pass

end ClassFile
