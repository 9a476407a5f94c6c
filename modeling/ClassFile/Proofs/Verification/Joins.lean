import ClassFile.Proofs.Verification.Branches
import ClassFile.Proofs.Verification.Cells

/-! Local variables as paths make and join them. A wide value that is known is whole, however stores and joins
follow each other, and what can be loaded after a join is what could be loaded on both paths. -/

namespace ClassFile

theorem Cells.Intact.merge {locals other : Locals} (h : Cells.Intact locals.slot)
    (hother : Cells.Intact other.slot) (hsize : locals.slots.size = other.slots.size) :
    Cells.Intact (locals.merge other).slot := by
  intro index c hvalue
  refine ⟨hvalue, fun hwide => ?_⟩
  rw [Locals.slot_merge hsize] at hvalue
  split at hvalue
  · rename_i hsame
    have hupper := (h index c hvalue).upper hwide
    have hupper' := (hother index c (hsame ▸ hvalue)).upper hwide
    rw [Locals.slot_merge hsize, hupper, hupper', if_pos rfl]
  · cases hvalue

namespace Locals

variable {maxLocals index : UInt16} {locals a b : Locals} {c : Category}

/-- Local variables that come from the four beginnings by stores and joins. -/
inductive Built (maxLocals : UInt16) : Locals → Prop
  | unset : Built maxLocals (.unset maxLocals)
  | unknown : Built maxLocals (.unknown maxLocals)
  | atEntry {isStatic : Bool} {descriptor : MethodDescriptor} {locals : Locals}
      (entered : Locals.atEntry maxLocals isStatic descriptor = .ok locals) : Built maxLocals locals
  | ofFrame {types : List VerificationType} {locals : Locals}
      (described : Locals.ofFrame maxLocals types = .ok locals) : Built maxLocals locals
  | store {locals stored : Locals} {index : UInt16} {c : Category} (before : Built maxLocals locals)
      (stores : locals.store index c = .ok stored) : Built maxLocals stored
  | merge {locals other : Locals} (first : Built maxLocals locals) (second : Built maxLocals other) :
      Built maxLocals (locals.merge other)

theorem Built.size (h : Built maxLocals locals) : locals.slots.size = maxLocals.toNat := by
  induction h with
  | unset => exact size_unset
  | unknown => exact size_unknown
  | atEntry entered => exact size_atEntry entered
  | ofFrame described => exact size_ofFrame described
  | store _ stores ih => exact (size_store stores).trans ih
  | merge _ _ ih _ => exact (size_merge _ _).trans ih

theorem Built.intact (h : Built maxLocals locals) : Cells.Intact locals.slot := by
  induction h with
  | unset => exact intact_unset maxLocals
  | unknown => exact intact_unknown maxLocals
  | atEntry entered => exact intact_atEntry entered
  | ofFrame described => exact intact_ofFrame described
  | store _ stores ih => exact intact_store stores ih
  | merge first second ih ih' => exact ih.merge ih' (first.size.trans second.size.symm)

/-- A load of an intact value does not find it split. -/
theorem load_ne_splitValue (h : Cells.Intact locals.slot) (index : UInt16) (c : Category)
    (expected : Subject) : locals.load index c ≠ .error (.mismatch expected .splitValue) := by
  intro hload
  unfold load at hload
  rcases bind_error.mp hload with hcheck | ⟨_, _, hfound⟩
  · unfold checkIndex at hcheck
    dsimp only at hcheck
    split at hcheck <;> cases hcheck
  cases hslot : locals.slot index.toNat with
  | unset => simp [hslot] at hfound
  | upper => simp [hslot] at hfound
  | unknown => simp [hslot] at hfound
  | value found =>
      simp only [hslot] at hfound
      split at hfound
      · cases hfound
      rename_i hcategory
      obtain rfl : found = c := Classical.not_not.mp hcategory
      cases hwide : found.isWide with
      | false => simp [hwide] at hfound
      | true => simp [hwide, (h _ _ hslot).upper hwide] at hfound

/-- What both sides can load, the join can load, as the second half of a wide value is there on both. -/
theorem load_merge_of_both (ha : Cells.Intact a.slot) (hb : Cells.Intact b.slot)
    (hsize : a.slots.size = b.slots.size) (hloads : a.load index c = .ok ())
    (hloads' : b.load index c = .ok ()) : (a.merge b).load index c = .ok () := by
  obtain ⟨hfits, hknown⟩ := load_ok_iff.mp hloads
  obtain ⟨_, hknown'⟩ := load_ok_iff.mp hloads'
  rw [load_ok_iff, size_merge]
  refine ⟨hfits, ?_⟩
  by_cases hsame : a.slot index.toNat = b.slot index.toNat
  · rcases hknown with hunknown | ⟨hvalue, _⟩
    · exact .inl (by rw [slot_merge hsize, if_pos hsame, hunknown])
    · have hmerged : (a.merge b).slot index.toNat = .value c := by
        rw [slot_merge hsize, if_pos hsame, hvalue]
      exact .inr ⟨hmerged, fun hwide => .inl (((ha.merge hb hsize) _ _ hmerged).upper hwide)⟩
  · exact .inl (by rw [slot_merge hsize, if_neg hsame])

/-- What the join knows is there on both sides. -/
theorem load_of_load_merge (ha : Cells.Intact a.slot) (hb : Cells.Intact b.slot)
    (hsize : a.slots.size = b.slots.size) (hknown : (a.merge b).slot index.toNat ≠ .unknown)
    (hloads : (a.merge b).load index c = .ok ()) : a.load index c = .ok () ∧ b.load index c = .ok () := by
  obtain ⟨hfits, hunknown | ⟨hvalue, _⟩⟩ := load_ok_iff.mp hloads
  · exact absurd hunknown hknown
  rw [size_merge] at hfits
  rw [slot_merge hsize] at hvalue
  split at hvalue
  · rename_i hsame
    have hvalue' := hsame ▸ hvalue
    exact ⟨load_ok_iff.mpr ⟨hfits, .inr ⟨hvalue, fun hwide => .inl ((ha _ _ hvalue).upper hwide)⟩⟩,
      load_ok_iff.mpr ⟨hsize ▸ hfits, .inr ⟨hvalue', fun hwide => .inl ((hb _ _ hvalue').upper hwide)⟩⟩⟩
  · cases hvalue

/-- Local variables and their join with others. -/
structure JoinsExactly (maxLocals : UInt16) (a b : Locals) : Prop where
  /-- A wide value has its second half behind it. -/
  whole : ∀ slot c, a.slot slot = .value c → c.isWide = true →
    slot + 1 < maxLocals.toNat ∧ a.slot (slot + 1) = .upper
  unsplit : ∀ index c expected, a.load index c ≠ .error (.mismatch expected .splitValue)
  /-- What both sides can load, the join can load. -/
  load : ∀ index c, a.load index c = .ok () → b.load index c = .ok () → (a.merge b).load index c = .ok ()
  /-- From a slot that it knows the join can load nothing else. -/
  load_iff : ∀ index c, (a.merge b).slot index.toNat ≠ .unknown →
    ((a.merge b).load index c = .ok () ↔ a.load index c = .ok () ∧ b.load index c = .ok ())

/-- However local variables came about, the wide values in them are whole, so that no load finds one split,
and they are joined exactly. -/
theorem Built.joinsExactly (ha : Built maxLocals a) (hb : Built maxLocals b) :
    JoinsExactly maxLocals a b := by
  have hsize := ha.size.trans hb.size.symm
  have hboth : ∀ index c, a.load index c = .ok () → b.load index c = .ok () →
      (a.merge b).load index c = .ok () :=
    fun _ _ => load_merge_of_both ha.intact hb.intact hsize
  refine ⟨fun slot c hvalue hwide => ?_, load_ne_splitValue ha.intact, hboth, fun index c hknown =>
    ⟨load_of_load_merge ha.intact hb.intact hsize hknown, fun h => hboth index c h.1 h.2⟩⟩
  have hupper := (ha.intact slot c hvalue).upper hwide
  refine ⟨Nat.lt_of_not_le fun hout => ?_, hupper⟩
  rw [slot_eq_unset (ha.size ▸ hout)] at hupper
  cases hupper

/-- Three slots that hold a `long` and an `int`. -/
def longAndInt : Locals := ⟨#[.value .long, .upper, .value .int]⟩

/-- Three slots that hold an `int`, and before it the second half of either a `long` or a `double`. -/
def halfAndInt : Locals := ⟨#[.unknown, .upper, .value .int]⟩

theorem halfAndInt_joinsExactly :
    Built 3 longAndInt ∧ Built 3 halfAndInt ∧ JoinsExactly 3 longAndInt halfAndInt := by
  have hlong : (unset 3).store 0 .long = .ok ⟨#[.value .long, .upper, .unset]⟩ := rfl
  have hdouble : (unset 3).store 0 .double = .ok ⟨#[.value .double, .upper, .unset]⟩ := rfl
  have hmerge : Locals.merge ⟨#[.value .long, .upper, .unset]⟩ ⟨#[.value .double, .upper, .unset]⟩ =
      ⟨#[.unknown, .upper, .unset]⟩ := by decide
  have hfirst : Locals.store ⟨#[.value .long, .upper, .unset]⟩ 2 .int = .ok longAndInt := rfl
  have hsecond : Locals.store ⟨#[.unknown, .upper, .unset]⟩ 2 .int = .ok halfAndInt := rfl
  have long := Built.store .unset hlong
  have half := Built.merge long (.store .unset hdouble)
  rw [hmerge] at half
  have built := Built.store long hfirst
  have built' := Built.store half hsecond
  exact ⟨built, built', built.joinsExactly built'⟩

end Locals

end ClassFile
