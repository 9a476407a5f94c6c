import ClassFile.Proofs.Verification.Branches
import ClassFile.Proofs.Verification.Exchange

/-! What branches ahead leave at their target, which is recorded as the join of all that they bring there. The
join knows what all of them agree on and nothing else, so that it does not matter in which order the
branches are met, up to where values came from. -/

namespace ClassFile

/-- A value stands for several ones: it is the one that they all are, or says that they differ. -/
structure Common {α : Type} (differ : α) (values : List α) (known : α) : Prop where
  agreed : ∀ v, (∀ a ∈ values, a = v) → known = v
  mixed : (¬ ∃ v, ∀ a ∈ values, a = v) → known = differ

namespace Common

variable {α : Type} {differ known known' : α} {values values' : List α}

theorem singleton (differ a : α) : Common differ [a] a :=
  ⟨fun _ h => h a (List.mem_singleton_self a),
    fun h => absurd ⟨a, fun _ hb => List.mem_singleton.mp hb⟩ h⟩

theorem append [DecidableEq α] (h : Common differ values known) (a : α) :
    Common differ (values ++ [a]) (if known = a then known else differ) := by
  refine ⟨fun v hv => ?_, fun hmixed => ?_⟩
  · have hknown := h.agreed v fun b hb => hv b (List.mem_append_left _ hb)
    have ha := hv a (List.mem_append_right _ (List.mem_singleton_self a))
    rw [hknown, ha, if_pos rfl]
  · split
    · rename_i hsame
      refine h.mixed fun ⟨v, hv⟩ => hmixed ⟨v, fun b hb => ?_⟩
      rcases List.mem_append.mp hb with hb | hb
      · exact hv b hb
      · rw [List.mem_singleton.mp hb, ← hsame, h.agreed v hv]
    · rfl

/-- Only which values there are matters, and not their order. -/
theorem of_mem_iff (h : Common differ values known) (hsame : ∀ a, a ∈ values' ↔ a ∈ values) :
    Common differ values' known :=
  ⟨fun v hv => h.agreed v fun a ha => hv a ((hsame a).mpr ha),
    fun hmixed => h.mixed fun ⟨v, hv⟩ => hmixed ⟨v, fun a ha => hv a ((hsame a).mp ha)⟩⟩

theorem unique (h : Common differ values known) (h' : Common differ values known') : known = known' := by
  by_cases hagree : ∃ v, ∀ a ∈ values, a = v
  · obtain ⟨v, hv⟩ := hagree
    rw [h.agreed v hv, h'.agreed v hv]
  · rw [h.mixed hagree, h'.mixed hagree]

end Common

namespace StackItem

/-- The type that a reference is said to have. -/
def type? : StackItem → Option ReturnType
  | .reference _ type => type
  | _ => none

theorem type?_merge {a b : StackItem} (h : a.category = b.category) :
    (merge a b).type? = if a.type? = b.type? then a.type? else none := by
  unfold merge
  split
  · rename_i hsame
    rw [hsame, if_pos rfl]
  · cases a with
    | numeric kind _ =>
        cases b with
        | numeric _ _ => rfl
        | _ => cases kind <;> cases h
    | reference _ _ =>
        cases b with
        | reference _ _ => rfl
        | numeric kind _ => cases kind <;> cases h
        | returnAddress _ => cases h
    | returnAddress _ =>
        cases b with
        | returnAddress _ => rfl
        | numeric kind _ => cases kind <;> cases h
        | reference _ _ => cases h

end StackItem

namespace Arrival

/-- The type that the reference is said to have which lies below a number of items. -/
def typeAt? (a : Arrival) (depth : Nat) : Option ReturnType := a.items[depth]?.bind StackItem.type?

/-- What is known where two paths meet. -/
def join (known other : Arrival) : Arrival :=
  ⟨List.zipWith StackItem.merge known.items other.items, known.locals.merge other.locals⟩

/-- What is known where several paths meet: the categories on the stack are those of all paths, and a type and
what a slot holds are known if all paths have the same there. -/
structure Meets (known : Arrival) (brought : List Arrival) : Prop where
  shape : ∀ a ∈ brought, shapeOf a.items = shapeOf known.items
  type : ∀ depth, Common none (brought.map (typeAt? · depth)) (known.typeAt? depth)
  size : ∀ a ∈ brought, a.locals.slots.size = known.locals.slots.size
  slot : ∀ index, Common .unknown (brought.map (·.locals.slot index)) (known.locals.slot index)

/-- Two states are the same, up to where values came from and where subroutines return to. -/
structure Alike (a b : Arrival) : Prop where
  items : a.items.map (fun item => (item.category, item.type?)) =
    b.items.map fun item => (item.category, item.type?)
  locals : a.locals = b.locals

variable {known known' a : Arrival} {brought brought' : List Arrival}

theorem categories_eq {xs ys : List StackItem} (h : shapeOf xs = shapeOf ys) (depth : Nat) :
    xs[depth]?.map StackItem.category = ys[depth]?.map StackItem.category := by
  rw [shapeOf, shapeOf, List.reverse_inj] at h
  rw [← List.getElem?_map, ← List.getElem?_map, h]

theorem Meets.singleton (a : Arrival) : a.Meets [a] where
  shape b hb := by rw [List.mem_singleton.mp hb]
  type _ := .singleton _ _
  size b hb := by rw [List.mem_singleton.mp hb]
  slot _ := .singleton _ _

theorem typeAt?_join {xs ys : List StackItem} (h : shapeOf xs = shapeOf ys) (depth : Nat) :
    (List.zipWith StackItem.merge xs ys)[depth]?.bind StackItem.type? =
      if xs[depth]?.bind StackItem.type? = ys[depth]?.bind StackItem.type? then
        xs[depth]?.bind StackItem.type?
      else none := by
  have hcategory := categories_eq h depth
  rw [List.getElem?_zipWith]
  cases hx : xs[depth]? with
  | none =>
      rw [hx] at hcategory
      rw [Option.map_eq_none_iff.mp hcategory.symm]
      rfl
  | some x =>
      rw [hx] at hcategory
      obtain ⟨y, hy, hxy⟩ := Option.map_eq_some_iff.mp hcategory.symm
      rw [hy]
      exact StackItem.type?_merge hxy.symm

/-- One more path is joined to those that meet. -/
theorem Meets.join (h : known.Meets brought) (hshape : shapeOf a.items = shapeOf known.items)
    (hsize : a.locals.slots.size = known.locals.slots.size) : (known.join a).Meets (brought ++ [a]) where
  shape b hb := by
    rw [Arrival.join, shapeOf_zipWith_merge hshape.symm]
    rcases List.mem_append.mp hb with hb | hb
    · exact h.shape b hb
    · rwa [List.mem_singleton.mp hb]
  type depth := by
    rw [List.map_append, Arrival.join, typeAt?, typeAt?_join hshape.symm]
    exact (h.type depth).append (a.typeAt? depth)
  size b hb := by
    rw [Arrival.join, Locals.size_merge]
    rcases List.mem_append.mp hb with hb | hb
    · exact h.size b hb
    · rwa [List.mem_singleton.mp hb]
  slot index := by
    rw [List.map_append, Arrival.join, Locals.slot_merge hsize.symm]
    exact (h.slot index).append (a.locals.slot index)

theorem Meets.perm (h : known.Meets brought) (hperm : brought'.Perm brought) : known.Meets brought' where
  shape a ha := h.shape a (hperm.mem_iff.mp ha)
  type depth := (h.type depth).of_mem_iff fun _ => (hperm.map _).mem_iff
  size a ha := h.size a (hperm.mem_iff.mp ha)
  slot index := (h.slot index).of_mem_iff fun _ => (hperm.map _).mem_iff

/-- What is known where paths meet is determined by the paths. -/
theorem Meets.alike (h : known.Meets brought) (h' : known'.Meets brought) (hne : brought ≠ []) :
    known.Alike known' := by
  obtain ⟨a, ha⟩ := List.exists_mem_of_ne_nil brought hne
  refine ⟨List.ext_getElem? fun depth => ?_, Locals.ext_slot ((h.size a ha).symm.trans (h'.size a ha))
    fun index => (h.slot index).unique (h'.slot index)⟩
  have hcategory := categories_eq ((h.shape a ha).symm.trans (h'.shape a ha)) depth
  have htype := (h.type depth).unique (h'.type depth)
  unfold typeAt? at htype
  rw [List.getElem?_map, List.getElem?_map]
  cases hx : known.items[depth]? with
  | none =>
      rw [hx] at hcategory
      rw [Option.map_eq_none_iff.mp hcategory.symm]
  | some x =>
      rw [hx] at hcategory htype
      obtain ⟨y, hy, hxy⟩ := Option.map_eq_some_iff.mp hcategory.symm
      rw [hy] at htype ⊢
      rw [Option.bind_some, Option.bind_some] at htype
      rw [Option.map_some, Option.map_some, htype, hxy]

end Arrival

namespace Pass

/-- What an instruction brings to the targets of its branches. -/
def Transition.arrival (t : Transition) : Arrival := ⟨t.after.stack.items, t.after.locals⟩

/-- An instruction before an offset brings a stack within a limit and a number of local variable slots. -/
structure Transition.Brings (maxStack maxLocals target : UInt16) (t : Transition) : Prop where
  ahead : t.pc < target
  limit : t.after.stack.maxStack = maxStack
  fits : OperandStack.slotsOf t.after.stack.items ≤ maxStack.toNat
  size : t.after.locals.slots.size = maxLocals.toNat

/-- Follows branches of several instructions to one target. -/
def branchAll (target : UInt16) (pass : Pass) (ts : List Transition) : Except CodeFault Pass :=
  ts.foldlM (fun pass t => branch t pass target) pass

/-- What is recorded for an offset is where the paths meet that came there so far, and is within the
limits itself. -/
structure Records (maxStack maxLocals target : UInt16) (brought : List Arrival) (known : Arrival)
    (pass : Pass) : Prop where
  recorded : pass.arrivalAt? target = some known
  meets : known.Meets brought
  fits : OperandStack.slotsOf known.items ≤ maxStack.toNat
  size : known.locals.slots.size = maxLocals.toNat

variable {maxStack maxLocals target : UInt16} {pass next : Pass} {t : Transition} {known : Arrival}
  {ts order : List Transition} {brought : List Arrival}

theorem branchAll_cons_ok :
    branchAll target pass (t :: ts) = .ok next ↔
      ∃ middle, branch t pass target = .ok middle ∧ branchAll target middle ts = .ok next := by
  rw [branchAll, List.foldlM_cons, bind_ok]
  rfl

theorem slotsOf_eq_of_shape {xs ys : List StackItem} (h : shapeOf xs = shapeOf ys) :
    OperandStack.slotsOf xs = OperandStack.slotsOf ys := by
  rw [OperandStack.slotsOf_eq, OperandStack.slotsOf_eq, List.reverse_inj.mp h]

/-- The first branch to an offset leaves there what it brings. -/
theorem branch_first (ht : t.Brings maxStack maxLocals target) (hnone : pass.arrivalAt? target = none) :
    ∃ next, branch t pass target = .ok next ∧
      Records maxStack maxLocals target [t.arrival] t.arrival next := by
  refine ⟨{ pass with arrivals := (target, t.arrival) :: pass.arrivals }, ?_, ?_, .singleton _,
    ht.fits, ht.size⟩
  · rw [branch, if_neg (UInt16.not_le.mpr ht.ahead), branchForward, hnone]
    rfl
  · rw [arrivalAt?_cons, if_pos rfl]

namespace Records

/-- Another branch brings the same shape or fails. -/
theorem shape_of_ok (h : Records maxStack maxLocals target brought known pass)
    (ht : t.Brings maxStack maxLocals target) (hok : branch t pass target = .ok next) :
    shapeOf t.arrival.items = shapeOf known.items := by
  rw [branch, if_neg (UInt16.not_le.mpr ht.ahead), branchForward, h.recorded] at hok
  obtain ⟨_, hjoin, _⟩ := bind_ok.mp hok
  exact (joinItems_ok (OperandStack.joinWithin_ok.mp hjoin).2).1

/-- A branch that brings the same shape is joined to what is known. -/
theorem branch (h : Records maxStack maxLocals target brought known pass)
    (ht : t.Brings maxStack maxLocals target) (hshape : shapeOf t.arrival.items = shapeOf known.items) :
    ∃ next, Pass.branch t pass target = .ok next ∧
      Records maxStack maxLocals target (brought ++ [t.arrival]) (known.join t.arrival) next := by
  have hjoin : OperandStack.joinWithin t.after.stack.maxStack known.items t.after.stack.items =
      .ok (known.join t.arrival).items :=
    OperandStack.joinWithin_ok.mpr ⟨ht.limit ▸ h.fits, bind_ok.mpr ⟨(), checkShape_ok.mpr hshape, rfl⟩⟩
  refine ⟨{ pass with arrivals := (target, known.join t.arrival) :: pass.arrivals }, ?_, ?_,
    h.meets.join hshape (ht.size.trans h.size.symm), ?_, (Locals.size_merge _ _).trans h.size⟩
  · rw [Pass.branch, if_neg (UInt16.not_le.mpr ht.ahead), branchForward, h.recorded]
    exact bind_ok.mpr ⟨_, hjoin, rfl⟩
  · rw [arrivalAt?_cons, if_pos rfl]
  · exact slotsOf_eq_of_shape (shapeOf_zipWith_merge hshape.symm) ▸ h.fits

theorem of_branch (h : Records maxStack maxLocals target brought known pass)
    (ht : t.Brings maxStack maxLocals target) (hok : Pass.branch t pass target = .ok next) :
    Records maxStack maxLocals target (brought ++ [t.arrival]) (known.join t.arrival) next := by
  obtain ⟨_, hnext, hrecords⟩ := h.branch ht (h.shape_of_ok ht hok)
  obtain rfl := Except.ok.inj (hok.symm.trans hnext)
  exact hrecords

/-- The branches that are still to come succeed if all of them bring the shape that is known. -/
theorem exists_branchAll (h : Records maxStack maxLocals target brought known pass)
    (hts : ∀ t ∈ ts, t.Brings maxStack maxLocals target)
    (hshapes : ∀ t ∈ ts, shapeOf t.arrival.items = shapeOf known.items) :
    ∃ next, branchAll target pass ts = .ok next := by
  induction ts generalizing pass known brought with
  | nil => exact ⟨pass, rfl⟩
  | cons t ts ih =>
      obtain ⟨ht, hts⟩ := List.forall_mem_cons.mp hts
      obtain ⟨hshape, hshapes⟩ := List.forall_mem_cons.mp hshapes
      obtain ⟨middle, hfirst, hrecords⟩ := h.branch ht hshape
      have hjoined : shapeOf (known.join t.arrival).items = shapeOf known.items :=
        shapeOf_zipWith_merge hshape.symm
      obtain ⟨next, hrest⟩ := ih hrecords hts fun s hs => (hshapes s hs).trans hjoined.symm
      exact ⟨next, branchAll_cons_ok.mpr ⟨middle, hfirst, hrest⟩⟩

/-- What is recorded after more branches is where all paths meet. -/
theorem of_branchAll (h : Records maxStack maxLocals target brought known pass)
    (hts : ∀ t ∈ ts, t.Brings maxStack maxLocals target) (hok : branchAll target pass ts = .ok next) :
    ∃ found, Records maxStack maxLocals target (brought ++ ts.map Transition.arrival) found next := by
  induction ts generalizing pass known brought with
  | nil =>
      cases hok
      exact ⟨known, by rwa [List.map_nil, List.append_nil]⟩
  | cons t ts ih =>
      obtain ⟨ht, hts⟩ := List.forall_mem_cons.mp hts
      obtain ⟨middle, hfirst, hrest⟩ := branchAll_cons_ok.mp hok
      rw [List.map_cons, List.append_cons]
      exact ih (h.of_branch ht hfirst) hts hrest

end Records

theorem branchAll_records (hnone : pass.arrivalAt? target = none) (hne : ts ≠ [])
    (hts : ∀ t ∈ ts, t.Brings maxStack maxLocals target) (hok : branchAll target pass ts = .ok next) :
    ∃ known, Records maxStack maxLocals target (ts.map Transition.arrival) known next := by
  cases ts with
  | nil => exact absurd rfl hne
  | cons t ts =>
      obtain ⟨ht, hts⟩ := List.forall_mem_cons.mp hts
      obtain ⟨middle, hfirst, hrest⟩ := branchAll_cons_ok.mp hok
      obtain ⟨_, hnext, hrecords⟩ := branch_first ht hnone
      obtain rfl := Except.ok.inj (hfirst.symm.trans hnext)
      exact hrecords.of_branchAll hts hrest

/-- Branches to an offset for which nothing is recorded succeed if all of them bring the same shape. -/
theorem branchAll_ok_iff (hnone : pass.arrivalAt? target = none) (hne : ts ≠ [])
    (hts : ∀ t ∈ ts, t.Brings maxStack maxLocals target) :
    (∃ next, branchAll target pass ts = .ok next) ↔
      ∀ s ∈ ts, ∀ t ∈ ts, s.after.stack.shape = t.after.stack.shape := by
  constructor
  · rintro ⟨next, hok⟩
    obtain ⟨known, hknown⟩ := branchAll_records hnone hne hts hok
    have hshape : ∀ t ∈ ts, t.after.stack.shape = shapeOf known.items := fun t ht =>
      hknown.meets.shape t.arrival (List.mem_map_of_mem ht)
    exact fun s hs t ht => (hshape s hs).trans (hshape t ht).symm
  · intro hshapes
    cases ts with
    | nil => exact absurd rfl hne
    | cons t ts =>
        obtain ⟨ht, hts⟩ := List.forall_mem_cons.mp hts
        obtain ⟨middle, hfirst, hrecords⟩ := branch_first ht hnone
        obtain ⟨next, hok⟩ := hrecords.exists_branchAll hts fun s hs =>
          hshapes s (List.mem_cons_of_mem t hs) t List.mem_cons_self
        exact ⟨next, branchAll_cons_ok.mpr ⟨middle, hfirst, hok⟩⟩

/-- In whatever order branches to an offset are met, they succeed exactly if all of them bring the same shape,
and then what is recorded is where all of their paths meet, the same in every order up to where values
came from and where subroutines return to. -/
theorem branchAll_perm (hnone : pass.arrivalAt? target = none) (hne : ts ≠ [])
    (hts : ∀ t ∈ ts, t.Brings maxStack maxLocals target) (horder : order.Perm ts) :
    ((∃ next, branchAll target pass order = .ok next) ↔
      ∀ s ∈ ts, ∀ t ∈ ts, s.after.stack.shape = t.after.stack.shape) ∧
      ∀ next, branchAll target pass order = .ok next →
        ∃ next' known known', branchAll target pass ts = .ok next' ∧
          next.arrivalAt? target = some known ∧ next'.arrivalAt? target = some known' ∧
          known.Meets (ts.map Transition.arrival) ∧ known.Alike known' := by
  have horders : ∀ t ∈ order, t.Brings maxStack maxLocals target := fun t ht => hts t (horder.mem_iff.mp ht)
  have hne' : order ≠ [] := fun hnil => hne (List.nil_perm.mp (hnil ▸ horder))
  have hiff : (∃ next, branchAll target pass order = .ok next) ↔
      ∀ s ∈ ts, ∀ t ∈ ts, s.after.stack.shape = t.after.stack.shape := by
    rw [branchAll_ok_iff hnone hne' horders]
    simp only [horder.mem_iff]
  refine ⟨hiff, fun next hok => ?_⟩
  obtain ⟨next', hok'⟩ := (branchAll_ok_iff hnone hne hts).mpr (hiff.mp ⟨next, hok⟩)
  obtain ⟨known, hknown⟩ := branchAll_records hnone hne' horders hok
  obtain ⟨known', hknown'⟩ := branchAll_records hnone hne hts hok'
  have hmeets := hknown.meets.perm (horder.symm.map Transition.arrival)
  have hmapped : ts.map Transition.arrival ≠ [] := fun hnil => hne (List.map_eq_nil_iff.mp hnil)
  exact ⟨next', known, known', hok', hknown.recorded, hknown'.recorded, hmeets,
    hmeets.alike hknown'.meets hmapped⟩

/-- A branch that brings a reference above a return address, and one local variable slot. -/
def subroutineBranch (pc : UInt16) (type : Option ReturnType) (held : LocalSlot) : Transition :=
  let machine : Machine := ⟨⟨[.reference ⟨pc, .constant⟩ type, .returnAddress pc], 2, 2, 0, 0⟩, ⟨#[held]⟩⟩
  ⟨pc, machine, machine⟩

/-- Branches of which one brings a reference without a type, and another one a slot that was not stored to. -/
def subroutineBranches : List Transition :=
  [subroutineBranch 0 (some (.value ⟨.primitive .int, 1⟩)) (.value .int),
    subroutineBranch 3 none (.value .int),
    subroutineBranch 6 (some (.value ⟨.primitive .int, 1⟩)) .unset]

theorem subroutineBranches_perm :
    let pass : Pass := ⟨⟨.empty 2, .unset 1⟩, true, none, [], [], []⟩
    pass.arrivalAt? 9 = none ∧ (∀ t ∈ subroutineBranches, t.Brings 2 1 9) ∧
      ∃ next next' known known', branchAll 9 pass subroutineBranches.reverse = .ok next ∧
        branchAll 9 pass subroutineBranches = .ok next' ∧
        next.arrivalAt? 9 = some known ∧ next'.arrivalAt? 9 = some known' ∧
        known.Meets (subroutineBranches.map Transition.arrival) ∧ known.Alike known' := by
  intro pass
  have hts : ∀ t ∈ subroutineBranches, t.Brings 2 1 9 := by
    simp only [subroutineBranches, List.forall_mem_cons]
    exact ⟨⟨by decide, rfl, by decide, rfl⟩, ⟨by decide, rfl, by decide, rfl⟩,
      ⟨by decide, rfl, by decide, rfl⟩, fun _ h => absurd h List.not_mem_nil⟩
  obtain ⟨hiff, hresult⟩ := branchAll_perm (show pass.arrivalAt? 9 = none from rfl) (List.cons_ne_nil _ _) hts
    (List.reverse_perm subroutineBranches)
  obtain ⟨next, hok⟩ := hiff.mpr (by decide)
  obtain ⟨next', known, known', hok', hknown, hknown', hmeets, halike⟩ := hresult next hok
  exact ⟨rfl, hts, next, next', known, known', hok, hok', hknown, hknown', hmeets, halike⟩

end Pass

end ClassFile
