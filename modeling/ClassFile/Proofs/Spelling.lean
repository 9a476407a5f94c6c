import ClassFile.Proofs.Consuming

/-! Readers and what they read. A reader comes to a value if and only if the bytes ahead of it begin with some
that spell the value, of which there may be several; it leaves the cursor behind them. -/

namespace ClassFile

open Cursor

/-- A reader comes to a value where the next bytes spell it, and to nothing else. -/
def Reads {ε α : Type} (reader : Reader ε α) (Spells : α → List UInt8 → Prop) : Prop :=
  ∀ a c c', reader c = .ok a c' ↔ ∃ bytes, Spells a bytes ∧ Passes bytes c c'

/-- Items are spelled one after the other. -/
inductive SpelledAll {α : Type} (Spells : α → List UInt8 → Prop) : List α → List UInt8 → Prop
  | nil : SpelledAll Spells [] []
  | cons {a as bytes more} (h : Spells a bytes) (hrest : SpelledAll Spells as more) :
    SpelledAll Spells (a :: as) (bytes ++ more)

/-- Items are spelled behind their number, which takes two bytes. -/
inductive SpelledList {α : Type} (Spells : α → List UInt8 → Prop) : List α → List UInt8 → Prop
  | mk {as bytes} (hlength : as.length < 65536) (h : SpelledAll Spells as bytes) :
    SpelledList Spells as (bigEndianBytes 2 as.length ++ bytes)

section Items

variable {α : Type} {Spells : α → List UInt8 → Prop} {as : List α} {bytes : List UInt8}

theorem SpelledAll.spelled (h : SpelledAll Spells as bytes) : ∀ a ∈ as, ∃ written, Spells a written := by
  induction h with
  | nil => exact List.forall_mem_nil _
  | cons hfirst _ ih => exact List.forall_mem_cons.mpr ⟨⟨_, hfirst⟩, ih⟩

theorem exists_spelledAll (h : ∀ a ∈ as, ∃ written, Spells a written) :
    ∃ bytes, SpelledAll Spells as bytes := by
  induction as with
  | nil => exact ⟨[], .nil⟩
  | cons a as ih =>
      obtain ⟨⟨front, hfirst⟩, hrest⟩ := List.forall_mem_cons.mp h
      obtain ⟨more, hmore⟩ := ih hrest
      exact ⟨front ++ more, .cons hfirst hmore⟩

theorem exists_spelledList (hlength : as.length < 65536) (h : ∀ a ∈ as, ∃ written, Spells a written) :
    ∃ bytes, SpelledList Spells as bytes := by
  obtain ⟨bytes, hbytes⟩ := exists_spelledAll h
  exact ⟨_, .mk hlength hbytes⟩

theorem SpelledList.spelled (h : SpelledList Spells as bytes) : ∀ a ∈ as, ∃ written, Spells a written := by
  cases h with
  | mk _ h => exact h.spelled

theorem spelledAll_and {P : α → Prop} :
    SpelledAll (fun a bytes => Spells a bytes ∧ P a) as bytes ↔
      SpelledAll Spells as bytes ∧ ∀ a ∈ as, P a := by
  constructor
  · intro h
    induction h with
    | nil => exact ⟨.nil, List.forall_mem_nil _⟩
    | cons hfirst _ ih => exact ⟨.cons hfirst.1 ih.1, List.forall_mem_cons.mpr ⟨hfirst.2, ih.2⟩⟩
  · rintro ⟨h, hall⟩
    induction h with
    | nil => exact .nil
    | cons hfirst _ ih =>
        obtain ⟨ha, hrest⟩ := List.forall_mem_cons.mp hall
        exact .cons ⟨hfirst, ha⟩ (ih hrest)

theorem spelledList_and {P : α → Prop} :
    SpelledList (fun a bytes => Spells a bytes ∧ P a) as bytes ↔
      SpelledList Spells as bytes ∧ ∀ a ∈ as, P a := by
  constructor
  · rintro ⟨hlength, h⟩
    obtain ⟨hspelled, hall⟩ := spelledAll_and.mp h
    exact ⟨.mk hlength hspelled, hall⟩
  · rintro ⟨⟨hlength, hspelled⟩, hall⟩
    exact .mk hlength (spelledAll_and.mpr ⟨hspelled, hall⟩)

end Items

namespace Reads

variable {ε α : Type} {reader : Reader ε α} {Spells : α → List UInt8 → Prop}

theorem mp (h : Reads reader Spells) {a : α} {c c' : Cursor} (hrun : reader c = .ok a c') :
    ∃ bytes, Spells a bytes ∧ Passes bytes c c' := (h a c c').mp hrun

theorem mpr (h : Reads reader Spells) {a : α} {c c' : Cursor}
    (hbytes : ∃ bytes, Spells a bytes ∧ Passes bytes c c') : reader c = .ok a c' := (h a c c').mpr hbytes

theorem collectFrom (h : Reads reader Spells) (found : List α) (n : Nat) :
    Reads (collectFrom reader found n) fun items bytes =>
      ∃ more, items = found.reverse ++ more ∧ more.length = n ∧ SpelledAll Spells more bytes := by
  intro items c c'
  induction n generalizing found c with
  | zero =>
      rw [ClassFile.collectFrom, pure_run]
      constructor
      · rintro ⟨rfl, rfl⟩
        exact ⟨[], ⟨[], (List.append_nil _).symm, rfl, .nil⟩, passes_nil.mpr rfl⟩
      · rintro ⟨bytes, ⟨more, rfl, hlength, hmore⟩, hpasses⟩
        cases hmore with
        | nil => exact ⟨(List.append_nil _).symm, (passes_nil.mp hpasses).symm⟩
        | cons => cases hlength
  | succ n ih =>
      simp only [ClassFile.collectFrom, bind_run, ih]
      constructor
      · rintro ⟨a, d, hread, bytes, ⟨more, rfl, rfl, hmore⟩, hbehind⟩
        obtain ⟨front, hfirst, hpasses⟩ := h.mp hread
        exact ⟨_, ⟨a :: more, by simp, rfl, .cons hfirst hmore⟩, passes_append.mpr ⟨d, hpasses, hbehind⟩⟩
      · rintro ⟨bytes, ⟨more, rfl, hlength, hmore⟩, hpasses⟩
        cases hmore with
        | nil => cases hlength
        | @cons a more front bytes hfirst hmore =>
            obtain ⟨d, hpasses, hbehind⟩ := passes_append.mp hpasses
            exact ⟨a, d, h.mpr ⟨front, hfirst, hpasses⟩, bytes,
              ⟨more, by simp, Nat.succ.inj hlength, hmore⟩, hbehind⟩

theorem collect (h : Reads reader Spells) (n : Nat) :
    Reads (collect n reader) fun items bytes => items.length = n ∧ SpelledAll Spells items bytes := by
  intro items c c'
  rw [ClassFile.collect, h.collectFrom [] n items c c']
  simp

theorem list [Truncatable ε] (h : Reads reader Spells) : Reads (Reader.list reader) (SpelledList Spells) := by
  intro items c c'
  simp only [Reader.list, bind_run, Reader.u16_ok]
  constructor
  · rintro ⟨count, d, hcount, hread⟩
    obtain ⟨bytes, ⟨hlength, hitems⟩, hpasses⟩ := (h.collect _).mp hread
    rw [← hlength] at hcount
    exact ⟨_, .mk (hlength ▸ count.toNat_lt) hitems, passes_append.mpr ⟨d, hcount, hpasses⟩⟩
  · rintro ⟨_, ⟨hlength, hitems⟩, hpasses⟩
    have hnat := UInt16.toNat_ofNat_of_lt' hlength
    obtain ⟨d, hcount, hpasses⟩ := passes_append.mp hpasses
    exact ⟨UInt16.ofNat items.length, d, by rwa [hnat], (h.collect _).mpr ⟨_, ⟨hnat.symm, hitems⟩, hpasses⟩⟩

end Reads

end ClassFile
