import ClassFile.Proofs.Outcome
import ClassFile.Proofs.Parsing

/-! Reading exactly what was written. A reader of a number or of a list comes to a value if and only if the
bytes ahead of its cursor begin with those that write the value, and it leaves the cursor behind them. -/

namespace ClassFile

/-- A cursor was moved over some bytes, which were the next ones. -/
def Cursor.Passes (bytes : List UInt8) (c c' : Cursor) : Prop :=
  c.rest = bytes ++ c'.rest ∧ c' = ⟨c.base, c.position + bytes.length, c'.rest⟩

namespace Cursor

variable {c c' : Cursor}

theorem passes_nil : Passes [] c c' ↔ c' = c := by
  unfold Passes
  constructor
  · rintro ⟨hrest, hcursor⟩
    rw [hcursor, ← List.nil_append c'.rest, ← hrest]
    rfl
  · rintro rfl
    exact ⟨rfl, rfl⟩

theorem passes_append {front next : List UInt8} :
    Passes (front ++ next) c c' ↔ ∃ d, Passes front c d ∧ Passes next d c' := by
  unfold Passes
  constructor
  · rintro ⟨hrest, hcursor⟩
    refine ⟨⟨c.base, c.position + front.length, next ++ c'.rest⟩, ⟨?_, rfl⟩, rfl, ?_⟩
    · rw [hrest, List.append_assoc]
    · rw [hcursor, List.length_append, Nat.add_assoc]
  · rintro ⟨d, ⟨hfront, hd⟩, hnext, hcursor⟩
    rw [hd] at hcursor
    refine ⟨by rw [hfront, hnext, List.append_assoc], ?_⟩
    rw [hcursor, List.length_append, Nat.add_assoc]

theorem passes_cons {b : UInt8} {bytes : List UInt8} :
    Passes (b :: bytes) c c' ↔ ∃ d, Passes [b] c d ∧ Passes bytes d c' :=
  @passes_append c c' [b] bytes

end Cursor

open Cursor

section Runs

variable {ε σ α : Type} {c c' : Cursor}

theorem pure_run {a b : α} {s s' : σ} : (pure a : EStateM ε σ α) s = .ok b s' ↔ a = b ∧ s = s' := by
  change EStateM.Result.ok a s = _ ↔ _
  rw [EStateM.Result.ok.injEq]

theorem FileReader.within_ok {place : Place} {reader : FileReader α} {a : α} :
    FileReader.within place reader c = .ok a c' ↔ reader c = .ok a c' := by
  unfold within
  cases reader c with
  | ok b after => rfl
  | error error after => exact ⟨nofun, nofun⟩

theorem FileReader.ofPool_run {result : Except Pool.Located α} {a : α} :
    FileReader.ofPool result c = .ok a c' ↔ result = .ok a ∧ c = c' := by
  cases result with
  | ok b =>
      rw [Except.ok.injEq]
      exact pure_run
  | error located => exact ⟨nofun, nofun⟩

theorem FileReader.liftPool_run {result : Except Pool.Located α} {a : α} :
    (liftM result : FileReader α) c = .ok a c' ↔ result = .ok a ∧ c = c' := ofPool_run

theorem FileReader.fillOnce_ok [Outlined α] {attributes : List Attribute} {old filled : Option α} {new : α}
    (h : FileReader.fillOnce attributes old new c = .ok filled c') : old = none ∧ filled = some new ∧ c = c' := by
  unfold fillOnce at h
  cases old with
  | none =>
      obtain ⟨rfl, hsame⟩ := pure_run.mp h
      exact ⟨rfl, rfl, hsame⟩
  | some old => cases h

theorem FileReader.gives_ofPool (result : Except Pool.Located α) :
    Gives (fun a => result = .ok a) (FileReader.ofPool result) :=
  .of_run fun _ _ _ hrun => (ofPool_run.mp hrun).1

theorem FileReader.gives_fillOnce [Outlined α] (attributes : List Attribute) (old : Option α) (new : α) :
    Gives (fun filled => filled = some new) (FileReader.fillOnce attributes old new) :=
  .of_run fun _ _ _ hrun => (fillOnce_ok hrun).2.1

/-- Items that are read one after the other, each of them put in front of those before it, were written one
after the other. Here `ahead` gives the bytes that are still to be read in a state. -/
theorem iterate_spells {ι : Type} (ahead : σ → List UInt8) {written : ι → List UInt8} {Reads : ι → α → Prop}
    {Apart : α → α → Prop} {step : List α → EStateM ε σ (List α)}
    (hstep : ∀ {so after s s'}, step so s = .ok after s' → ∃ i a, after = a :: so ∧
      (∀ b ∈ so, Apart b a) ∧ ahead s = written i ++ ahead s' ∧ Reads i a)
    {n : Nat} {so after : List α} {s s' : σ} (h : iterate step so n s = .ok after s') :
    ∃ items values, after = values.reverse ++ so ∧ items.length = n ∧
      ahead s = items.flatMap written ++ ahead s' ∧ List.Forall₂ Reads items values ∧
      values.Pairwise Apart ∧ ∀ b ∈ so, ∀ a ∈ values, Apart b a := by
  induction n generalizing so s with
  | zero =>
      cases h
      exact ⟨[], [], rfl, rfl, rfl, .nil, .nil, nofun⟩
  | succ n ih =>
      obtain ⟨_, t, hfirst, hrest⟩ := bind_run.mp h
      obtain ⟨i, a, rfl, hapart, hfront, hreads⟩ := hstep hfirst
      obtain ⟨items, values, rfl, rfl, hmore, hall, hpairs, hbehind⟩ := ih hrest
      refine ⟨i :: items, a :: values, by simp, rfl, ?_, .cons hreads hall, ?_, ?_⟩
      · rw [hfront, hmore, List.flatMap_cons, List.append_assoc]
      · exact .cons (hbehind a List.mem_cons_self) hpairs
      · intro b hb
        rw [List.forall_mem_cons]
        exact ⟨hapart b hb, hbehind b (List.mem_cons_of_mem _ hb)⟩

/-- Items and the values that were read from them stand at the same places. -/
theorem forall₂_getElem? {α β : Type} {R : α → β → Prop} {as : List α} {bs : List β}
    (h : List.Forall₂ R as bs) {i : Nat} {b : β} (hb : bs[i]? = some b) : ∃ a, as[i]? = some a ∧ R a b := by
  induction h generalizing i with
  | nil => cases hb
  | @cons a _ as _ hhead _ ih =>
      cases i with
      | zero =>
          cases hb
          exact ⟨a, rfl, hhead⟩
      | succ i => exact ih hb

end Runs

namespace Reader

variable {ε α : Type} [Truncatable ε] {c c' : Cursor}

theorem bytes_ok {n : Nat} {front : List UInt8} :
    (bytes n : Reader ε _) c = .ok front c' ↔ front.length = n ∧ Passes front c c' := by
  have hnext := next?_eq c n
  unfold bytes
  by_cases hn : n ≤ c.remaining
  · rw [if_pos hn] at hnext
    rw [hnext]
    constructor
    · rintro ⟨⟩
      have hlength : (c.rest.take n).length = n := List.length_take_of_le hn
      exact ⟨hlength, (List.take_append_drop n c.rest).symm, by rw [hlength]⟩
    · rintro ⟨hlength, hrest, hcursor⟩
      rw [hrest, List.take_left' hlength, List.drop_left' hlength, ← hlength, ← hcursor]
  · rw [if_neg hn] at hnext
    rw [hnext]
    refine ⟨nofun, fun ⟨hlength, hrest, _⟩ => absurd ?_ hn⟩
    rw [remaining, hrest, List.length_append, hlength]
    exact Nat.le_add_right _ _

section Numbers

variable {ω : Type} {width : Nat} {ofNat : Nat → ω} {toNat : ω → Nat}

theorem number_ok (hof : ∀ n, ofNat (toNat n) = n) (hlt : ∀ n, toNat n < 256 ^ width)
    (hto : ∀ n < 256 ^ width, toNat (ofNat n) = n) {n : ω} :
    (do return ofNat (bigEndian (← bytes width)) : Reader ε ω) c = .ok n c' ↔
      Passes (bigEndianBytes width (toNat n)) c c' := by
  simp only [bind_run, pure_run, bytes_ok]
  constructor
  · rintro ⟨found, _, ⟨hlength, hpasses⟩, rfl, rfl⟩
    rwa [hto _ (Nat.lt_of_lt_of_eq (bigEndian_lt found) (by rw [hlength])), ← hlength,
      bigEndianBytes_bigEndian]
  · intro hpasses
    exact ⟨_, c', ⟨length_bigEndianBytes width _, hpasses⟩, by rw [bigEndian_bigEndianBytes (hlt n), hof],
      rfl⟩

theorem u8_ok {n : UInt8} : (u8 : Reader ε _) c = .ok n c' ↔ Passes [n] c c' := by
  rw [← bigEndianBytes_one]
  exact number_ok (fun _ => UInt8.ofNat_toNat) UInt8.toNat_lt fun _ h => UInt8.toNat_ofNat_of_lt' h

theorem u16_ok {n : UInt16} :
    (u16 : Reader ε _) c = .ok n c' ↔ Passes (bigEndianBytes 2 n.toNat) c c' :=
  number_ok (fun _ => UInt16.ofNat_toNat) UInt16.toNat_lt fun _ h => UInt16.toNat_ofNat_of_lt' h

theorem u32_ok {n : UInt32} :
    (u32 : Reader ε _) c = .ok n c' ↔ Passes (bigEndianBytes 4 n.toNat) c c' :=
  number_ok (fun _ => UInt32.ofNat_toNat) UInt32.toNat_lt fun _ h => UInt32.toNat_ofNat_of_lt' h

theorem u64_ok {n : UInt64} :
    (u64 : Reader ε _) c = .ok n c' ↔ Passes (bigEndianBytes 8 n.toNat) c c' :=
  number_ok (fun _ => UInt64.ofNat_toNat) UInt64.toNat_lt fun _ h => UInt64.toNat_ofNat_of_lt' h

theorem i32_ok {n : Int32} :
    (i32 : Reader ε _) c = .ok n c' ↔ Passes (signedBytes 4 n.toInt) c c' := by
  have hbytes : signedBytes 4 n.toInt = bigEndianBytes 4 n.toUInt32.toNat := signedBytes_toInt 4 n.toBitVec
  simp only [i32, bind_run, pure_run, u32_ok, hbytes]
  constructor
  · rintro ⟨_, _, hpasses, rfl, rfl⟩
    exact hpasses
  · exact fun hpasses => ⟨_, _, hpasses, rfl, rfl⟩

theorem i64_ok {n : Int64} :
    (i64 : Reader ε _) c = .ok n c' ↔ Passes (signedBytes 8 n.toInt) c c' := by
  have hbytes : signedBytes 8 n.toInt = bigEndianBytes 8 n.toUInt64.toNat := signedBytes_toInt 8 n.toBitVec
  simp only [i64, bind_run, pure_run, u64_ok, hbytes]
  constructor
  · rintro ⟨_, _, hpasses, rfl, rfl⟩
    exact hpasses
  · exact fun hpasses => ⟨_, _, hpasses, rfl, rfl⟩

end Numbers

section Lists

variable {item : Reader ε α} {Valid : α → Prop} {write : α → List UInt8}

omit [Truncatable ε] in
theorem collectFrom_ok (hitem : ∀ {a c c'}, item c = .ok a c' ↔ Valid a ∧ Passes (write a) c c')
    {found items : List α} {n : Nat} :
    collectFrom item found n c = .ok items c' ↔
      ∃ more, items = found.reverse ++ more ∧ more.length = n ∧ (∀ a ∈ more, Valid a) ∧
        Passes (more.flatMap write) c c' := by
  induction n generalizing found c with
  | zero =>
      rw [collectFrom, pure_run]
      constructor
      · rintro ⟨rfl, rfl⟩
        exact ⟨[], (List.append_nil _).symm, rfl, nofun, passes_nil.mpr rfl⟩
      · rintro ⟨more, rfl, hlength, _, hpasses⟩
        rw [List.length_eq_zero_iff] at hlength
        subst hlength
        exact ⟨(List.append_nil _).symm, (passes_nil.mp hpasses).symm⟩
  | succ n ih =>
      simp only [collectFrom, bind_run, hitem, ih]
      constructor
      · rintro ⟨a, d, ⟨ha, hfirst⟩, more, rfl, rfl, hmore, hpasses⟩
        refine ⟨a :: more, by simp, rfl, List.forall_mem_cons.mpr ⟨ha, hmore⟩, ?_⟩
        rw [List.flatMap_cons, passes_append]
        exact ⟨d, hfirst, hpasses⟩
      · rintro ⟨more, rfl, hlength, hmore, hpasses⟩
        cases more with
        | nil => cases hlength
        | cons a more =>
            rw [List.flatMap_cons, passes_append] at hpasses
            obtain ⟨d, hfirst, hpasses⟩ := hpasses
            rw [List.forall_mem_cons] at hmore
            exact ⟨a, d, ⟨hmore.1, hfirst⟩, more, by simp, Nat.succ.inj hlength, hmore.2, hpasses⟩

theorem list_ok (hitem : ∀ {a c c'}, item c = .ok a c' ↔ Valid a ∧ Passes (write a) c c')
    {items : List α} :
    list item c = .ok items c' ↔ items.length < 65536 ∧ (∀ a ∈ items, Valid a) ∧
      Passes (bigEndianBytes 2 items.length ++ items.flatMap write) c c' := by
  simp only [list, collect, bind_run, u16_ok, collectFrom_ok hitem, passes_append]
  constructor
  · rintro ⟨count, d, hcount, more, rfl, hlength, hvalid, hpasses⟩
    rw [← hlength] at hcount
    exact ⟨hlength ▸ count.toNat_lt, hvalid, d, hcount, hpasses⟩
  · rintro ⟨hlength, hvalid, d, hcount, hpasses⟩
    have hnat := UInt16.toNat_ofNat_of_lt' hlength
    exact ⟨UInt16.ofNat items.length, d, by rwa [hnat], items, rfl, hnat.symm, hvalid, hpasses⟩

end Lists

end Reader

end ClassFile
