import Mathlib.Data.Nat.Digits.Defs
import ClassFile.Proofs.Parsing

/-! Cursors are windows of the data. A cursor shows the bytes of its window that were not read yet; whatever
is read with it, in whatever order, and from whatever cursors were split off, each of them stays the window
that it is, and is moved over the bytes that were read and no others. -/

namespace ClassFile

/-- The bytes of the window of a cursor over some data. -/
def Cursor.window (data : List UInt8) (c : Cursor) : List UInt8 := (data.drop c.base).take c.size

/-- A cursor stands in a window of the data, of which it has the bytes that are still to be read. -/
structure Cursor.Shows (data : List UInt8) (c : Cursor) : Prop where
  fits : c.base + c.size ≤ data.length
  rest : c.rest = (c.window data).drop c.position

/-- A cursor behind the next `n` bytes. -/
def Cursor.advance (n : Nat) (c : Cursor) : Cursor := ⟨c.base, c.position + n, c.rest.drop n⟩

/-- What a read of the next `n` bytes comes to that finds something in them. -/
def Cursor.past {α : Type} (n : Nat) (found : α) (c : Cursor) : EStateM.Result Error Cursor α :=
  if n ≤ c.remaining then .ok found (c.advance n) else .error ⟨[], .truncated c.offset n⟩ c

/-- How many bytes a number takes. -/
inductive NumberWidth
  | one | two | four | eight
  deriving DecidableEq

def NumberWidth.bytes : NumberWidth → Nat
  | .one => 1
  | .two => 2
  | .four => 4
  | .eight => 8

/-- What a read finds. -/
inductive Found
  | nothing
  | number (n : Int)
  | slice (bytes : List UInt8)
  | window (c : Cursor)
  deriving DecidableEq

/-- A read that moves a cursor over as many bytes as it says, or not at all. -/
inductive BasicRead
  | unsigned (width : NumberWidth)
  | signed (width : NumberWidth)
  | slice (n : Nat)
  | skip (n : Nat)
  | take (n : Nat)
  deriving DecidableEq

namespace BasicRead

/-- The number of bytes that are read. -/
def wanted : BasicRead → Nat
  | .unsigned width | .signed width => width.bytes
  | .slice n | .skip n | .take n => n

/-- What the next bytes are read as. The most significant byte of a number is the first one, and a signed
number is the one of the least magnitude. -/
def value (offset : Nat) (next : List UInt8) : BasicRead → Found
  | .unsigned _ => .number (Nat.ofDigits 256 (next.reverse.map UInt8.toNat) : Nat)
  | .signed width =>
    .number (Int.bmod (Nat.ofDigits 256 (next.reverse.map UInt8.toNat) : Nat) (256 ^ width.bytes))
  | .slice _ => .slice next
  | .skip _ => .nothing
  | .take _ => .window ⟨offset, 0, next⟩

/-- How it is read. -/
def read : BasicRead → FileReader Found
  | .unsigned .one => do return .number (← Reader.u8).toNat
  | .unsigned .two => do return .number (← Reader.u16).toNat
  | .unsigned .four => do return .number (← Reader.u32).toNat
  | .unsigned .eight => do return .number (← Reader.u64).toNat
  | .signed .one => do return .number (← Reader.i8).toInt
  | .signed .two => do return .number (← Reader.i16).toInt
  | .signed .four => do return .number (← Reader.i32).toInt
  | .signed .eight => do return .number (← Reader.i64).toInt
  | .slice n => do return .slice (← Reader.bytes n)
  | .skip n => do
    Reader.skip n
    return .nothing
  | .take n => do return .window (← Reader.take n)

end BasicRead

/-- The number that bytes write, by its digits. -/
theorem bigEndian_eq_ofDigits (bytes : List UInt8) :
    bigEndian bytes = Nat.ofDigits 256 (bytes.reverse.map UInt8.toNat) := by
  induction bytes with
  | nil => rfl
  | cons b rest ih =>
      rw [bigEndian_cons, ih, List.reverse_cons, List.map_append, Nat.ofDigits_append, List.length_map,
        List.length_reverse, List.map_singleton, Nat.ofDigits_singleton, Nat.mul_comm, Nat.add_comm]

section BasicReads

variable {c : Cursor} {data : List UInt8}

theorem Reader.bytes_eq (n : Nat) (c : Cursor) :
    (Reader.bytes n : FileReader _) c = c.past n (c.rest.take n) := by
  unfold Reader.bytes Cursor.past
  rw [Cursor.next?_eq]
  by_cases hn : n ≤ c.remaining
  · rw [if_pos hn, if_pos hn, Cursor.advance]
  · rw [if_neg hn, if_neg hn]
    rfl

/-- An action on what a reader finds does not matter to where it ends. -/
theorem Reader.map_eq {α β : Type} {reader : FileReader α} {n : Nat} {a : α} (f : α → β)
    (h : reader c = c.past n a) : (do return f (← reader) : FileReader β) c = c.past n (f a) := by
  change EStateM.bind reader _ c = _
  unfold EStateM.bind
  rw [h]
  unfold Cursor.past
  by_cases hn : n ≤ c.remaining
  · rw [if_pos hn, if_pos hn]
    rfl
  · rw [if_neg hn, if_neg hn]

namespace BasicRead

theorem toNat_ofNat (width : Nat) {bytes : List UInt8} (h : bytes.length = width) :
    (BitVec.ofNat (8 * width) (bigEndian bytes)).toNat =
      Nat.ofDigits 256 (bytes.reverse.map UInt8.toNat) := by
  have hlt : bigEndian bytes < 2 ^ (8 * width) := by
    rw [pow_mul, ← h]
    exact bigEndian_lt bytes
  rw [BitVec.toNat_ofNat, Nat.mod_eq_of_lt hlt, bigEndian_eq_ofDigits]

/-- A number in two's complement is the one of the least magnitude. -/
theorem toInt_ofNat (width : Nat) (bytes : List UInt8) :
    (BitVec.ofNat (8 * width) (bigEndian bytes)).toInt =
      Int.bmod (Nat.ofDigits 256 (bytes.reverse.map UInt8.toNat) : Nat) (256 ^ width) := by
  have hpow : 2 ^ (8 * width) = 256 ^ width := pow_mul 2 8 width
  rw [BitVec.toInt_ofNat', bigEndian_eq_ofDigits, hpow]

/-- What is found may be told from the bytes in any way, as long as there are as many as are wanted. -/
theorem read_congr {p : BasicRead} {found : List UInt8 → Found}
    (hfound : ∀ bytes, bytes.length = p.wanted → found bytes = p.value c.offset bytes)
    (hread : p.read c = c.past p.wanted (found (c.rest.take p.wanted))) :
    p.read c = c.past p.wanted (p.value c.offset (c.rest.take p.wanted)) := by
  rw [hread]
  unfold Cursor.past
  by_cases hn : p.wanted ≤ c.remaining
  · rw [if_pos hn, if_pos hn, hfound _ (List.length_take_of_le hn)]
  · rw [if_neg hn, if_neg hn]

theorem read_run (p : BasicRead) (c : Cursor) :
    p.read c = c.past p.wanted (p.value c.offset (c.rest.take p.wanted)) := by
  have hunsigned (width : NumberWidth) (bytes : List UInt8) (h : bytes.length = width.bytes) :=
    congrArg (fun n : Nat => Found.number n) (toNat_ofNat width.bytes h)
  have hsigned (width : NumberWidth) (bytes : List UInt8) (_ : bytes.length = width.bytes) :=
    congrArg Found.number (toInt_ofNat width.bytes bytes)
  cases p with
  | unsigned width =>
    cases width with
    | one => exact read_congr (hunsigned .one) (Reader.map_eq _ (Reader.map_eq _ (Reader.bytes_eq 1 c)))
    | two => exact read_congr (hunsigned .two) (Reader.map_eq _ (Reader.map_eq _ (Reader.bytes_eq 2 c)))
    | four => exact read_congr (hunsigned .four) (Reader.map_eq _ (Reader.map_eq _ (Reader.bytes_eq 4 c)))
    | eight => exact read_congr (hunsigned .eight) (Reader.map_eq _ (Reader.map_eq _ (Reader.bytes_eq 8 c)))
  | signed width =>
    have hread {α β : Type} (f : β → Int) (g : α → β) (h : List UInt8 → α) (n : Nat) :=
      Reader.map_eq (fun b => Found.number (f b)) (Reader.map_eq g (Reader.map_eq h (Reader.bytes_eq n c)))
    cases width with
    | one => exact read_congr (hsigned .one) (hread Int8.toInt _ _ 1)
    | two => exact read_congr (hsigned .two) (hread Int16.toInt _ _ 2)
    | four => exact read_congr (hsigned .four) (hread Int32.toInt _ _ 4)
    | eight => exact read_congr (hsigned .eight) (hread Int64.toInt _ _ 8)
  | slice n => exact Reader.map_eq _ (Reader.bytes_eq n c)
  | skip n => exact Reader.map_eq _ (Reader.map_eq _ (Reader.bytes_eq n c))
  | take n => exact Reader.map_eq _ (Reader.take_eq n c)

end BasicRead

namespace Cursor

theorem shows_ofBytes (data : List UInt8) : Shows data (ofBytes data) := by
  refine ⟨?_, ?_⟩
  · change 0 + (0 + data.length) ≤ data.length
    omega
  · change data = ((data.drop 0).take (0 + data.length)).drop 0
    rw [List.drop_zero, List.drop_zero, Nat.zero_add, List.take_length]

theorem position_le_size (c : Cursor) : c.position ≤ c.size := Nat.le_add_right _ _

theorem remaining_eq (c : Cursor) : c.remaining = c.size - c.position := (Nat.add_sub_cancel_left ..).symm

theorem size_advance {n : Nat} (hn : n ≤ c.remaining) : (c.advance n).size = c.size := by
  have hdrop : (c.rest.drop n).length = c.remaining - n := List.length_drop
  change c.position + n + (c.rest.drop n).length = c.position + c.remaining
  omega

theorem Shows.advance {n : Nat} (h : Shows data c) (hn : n ≤ c.remaining) : Shows data (c.advance n) := by
  refine ⟨?_, ?_⟩
  · rw [size_advance hn]
    exact h.fits
  · rw [window, size_advance hn]
    change c.rest.drop n = (c.window data).drop (c.position + n)
    rw [h.rest, List.drop_drop]

/-- What is split off is a window of the data. -/
theorem Shows.take {n : Nat} (h : Shows data c) (hn : n ≤ c.remaining) :
    Shows data ⟨c.offset, 0, c.rest.take n⟩ := by
  have hremaining := c.remaining_eq
  have hfits := h.fits
  have hposition := c.position_le_size
  have hlength : (c.rest.take n).length = n := List.length_take_of_le hn
  refine ⟨?_, ?_⟩
  · change c.base + c.position + (0 + (c.rest.take n).length) ≤ data.length
    omega
  · change c.rest.take n = ((data.drop (c.base + c.position)).take (0 + (c.rest.take n).length)).drop 0
    rw [List.drop_zero, hlength, Nat.zero_add, h.rest, window, List.drop_take, List.take_take, List.drop_drop,
      Nat.min_eq_left (by omega)]

end Cursor

/-- A read does to a cursor over the data what it says, and moves it by as much. If the window has not enough
bytes left, it fails where the cursor stands in all of the data, and leaves it there. -/
theorem BasicRead.read_eq (p : BasicRead) (h : c.Shows data) :
    p.read c =
      if c.position + p.wanted ≤ c.size then
        .ok (p.value (c.base + c.position) (((c.window data).drop c.position).take p.wanted))
          (c.advance p.wanted)
      else .error ⟨[], .truncated (c.base + c.position) p.wanted⟩ c := by
  have hposition := c.position_le_size
  have hwanted : p.wanted ≤ c.remaining ↔ c.position + p.wanted ≤ c.size := by
    rw [c.remaining_eq]
    omega
  rw [read_run, h.rest, Cursor.past]
  simp only [hwanted]
  rfl

end BasicReads

/-- A sequence of reads with one cursor. The later ones may depend on what was found before. -/
inductive CursorRead
  | basic (p : BasicRead)
  | both (first : CursorRead) (next : List Found → CursorRead)
  /-- A list behind its length, which takes one byte. -/
  | shortList (item : CursorRead)
  /-- A list behind its length, which takes two bytes. -/
  | list (item : CursorRead)
  /-- A list of so many items. -/
  | items (n : Nat) (item : CursorRead)
  /-- The next `n` bytes are read with a cursor of their own. -/
  | inside (n : Nat) (contents : CursorRead)

/-- All that is found, in its order. -/
def CursorRead.run : CursorRead → FileReader (List Found)
  | .basic p => do return [← p.read]
  | .both first next => do
    let found ← first.run
    return found ++ (← (next found).run)
  | .shortList item => do return (← Reader.shortList item.run).flatten
  | .list item => do return (← Reader.list item.run).flatten
  | .items n item => do return (← collect n item.run).flatten
  | .inside n contents => do
    let cursor ← Reader.take n
    Reader.runOn cursor contents.run

/-- The cursors that were split off. -/
def Found.windows (found : List Found) : List Cursor :=
  found.filterMap fun
    | .window c => some c
    | _ => none

/-- A cursor was moved on in its window. -/
structure Cursor.Follows (data : List UInt8) (before c : Cursor) : Prop where
  shows : Shows data c
  base : c.base = before.base
  size : c.size = before.size
  position : before.position ≤ c.position

/-- A cursor that was not moved yet, over a part of the data between two offsets. -/
structure Cursor.Lies (data : List UInt8) (start stop : Nat) (c : Cursor) : Prop where
  shows : Shows data c
  position : c.position = 0
  start : start ≤ c.base
  stop : c.base + c.size ≤ stop

/-- A reader keeps cursors in their windows. What it splits off stands in what it was moved over, unless it is
known from before. -/
def Keeps {α : Type} (data : List UInt8) (known : List Cursor) (windows : α → List Cursor)
    (reader : FileReader α) : Prop :=
  ∀ before, before.Shows data →
    Ends (fun a c => before.Follows data c ∧ ∀ w ∈ windows a, w ∈ known ∨ w.Lies data before.offset c.offset)
      (fun _ c => before.Follows data c) (reader before)

section Keeping

variable {data : List UInt8} {c c' c'' : Cursor} {α β γ : Type}

open Cursor

theorem Cursor.Shows.follows (h : c.Shows data) : c.Follows data c := ⟨h, rfl, rfl, Nat.le_refl _⟩

theorem Cursor.Follows.trans (h : c.Follows data c') (h' : c'.Follows data c'') : c.Follows data c'' :=
  ⟨h'.shows, h'.base.trans h.base, h'.size.trans h.size, Nat.le_trans h.position h'.position⟩

theorem Cursor.Follows.offset_le (h : c.Follows data c') : c.offset ≤ c'.offset := by
  have hbase := h.base
  have hposition := h.position
  unfold offset
  omega

theorem Cursor.Lies.mono {start stop start' stop' : Nat} (h : c.Lies data start stop)
    (hstart : start' ≤ start) (hstop : stop ≤ stop') : c.Lies data start' stop' :=
  ⟨h.shows, h.position, Nat.le_trans hstart h.start, Nat.le_trans h.stop hstop⟩

namespace Keeps

variable {known : List Cursor} {u : α → List Cursor} {v : β → List Cursor}

theorem pure {a : α} (h : u a ⊆ known) : Keeps data known u (pure a : FileReader α) :=
  fun _ hbefore => ⟨hbefore.follows, fun _ hw => .inl (h hw)⟩

theorem bind {first : FileReader α} {next : α → FileReader β} (hfirst : Keeps data known u first)
    (hnext : ∀ a, Keeps data (u a) v (next a)) : Keeps data known v (first >>= next) := by
  intro before hbefore
  have hone := hfirst before hbefore
  change Ends _ _ (EStateM.bind first next before)
  unfold EStateM.bind
  cases hrun : first before with
  | error e c =>
      rw [hrun] at hone
      exact hone
  | ok a c =>
      rw [hrun] at hone
      obtain ⟨hfollows, hu⟩ := hone
      have htwo := hnext a c hfollows.shows
      change Ends _ _ (next a c)
      cases hmore : next a c with
      | error e c' =>
          rw [hmore] at htwo
          exact hfollows.trans htwo
      | ok b c' =>
          rw [hmore] at htwo
          obtain ⟨hfollows', hv⟩ := htwo
          refine ⟨hfollows.trans hfollows', fun w hw => ?_⟩
          rcases hv w hw with hw | hw
          · exact (hu w hw).imp_right fun hlies => hlies.mono (Nat.le_refl _) hfollows'.offset_le
          · exact .inr (hw.mono hfollows.offset_le (Nat.le_refl _))

/-- What was known before may be part of what is said about the result. -/
theorem frame {reader : FileReader α} {u' : α → List Cursor} (h : Keeps data [] u reader)
    (hu : ∀ a, u' a ⊆ known ++ u a) : Keeps data known u' reader := by
  intro before hbefore
  have hrun := h before hbefore
  cases hresult : reader before with
  | error e c =>
      rw [hresult] at hrun
      exact hrun
  | ok a c =>
      rw [hresult] at hrun
      refine ⟨hrun.1, fun w hw => (List.mem_append.mp (hu a hw)).imp_right fun hw => ?_⟩
      exact (hrun.2 w hw).resolve_left List.not_mem_nil

theorem map {reader : FileReader α} {f : α → β} (h : Keeps data known u reader) (hf : ∀ a, v (f a) = u a) :
    Keeps data known v (do return f (← reader)) := bind h fun a => pure (hf a ▸ List.Subset.refl _)

theorem collectFrom {item : FileReader α} (h : Keeps data [] u item) (found : List α) (n : Nat) :
    Keeps data (found.flatMap u) (·.flatMap u) (collectFrom item found n) := by
  induction n generalizing found with
  | zero =>
      refine pure fun w hw => ?_
      simpa [and_comm] using hw
  | succ n ih =>
      have hfirst : Keeps data (found.flatMap u) (fun a => (a :: found).flatMap u) item := by
        refine frame h fun a w hw => ?_
        rw [List.flatMap_cons] at hw
        exact List.mem_append.mpr (List.mem_append.mp hw).symm
      exact bind hfirst fun a => ih (a :: found)

theorem collect {item : FileReader α} (h : Keeps data [] u item) (n : Nat) :
    Keeps data [] (·.flatMap u) (collect n item) := h.collectFrom [] n

/-- A reader that moves over so many bytes or fails keeps cursors in their windows, if what it finds does. -/
theorem advances {reader : FileReader α} {n : Nat} {found : Cursor → α}
    (hread : ∀ c, reader c = c.past n (found c))
    (hfound : ∀ c, c.Shows data → n ≤ c.remaining →
      ∀ w ∈ u (found c), w.Lies data c.offset (c.advance n).offset) :
    Keeps data [] u reader := by
  intro before hbefore
  rw [hread, Cursor.past]
  by_cases hn : n ≤ before.remaining
  · rw [if_pos hn]
    have hposition : before.position ≤ (before.advance n).position := Nat.le_add_right _ _
    exact ⟨⟨hbefore.advance hn, rfl, size_advance hn, hposition⟩, fun w hw => .inr (hfound _ hbefore hn w hw)⟩
  · rw [if_neg hn]
    exact hbefore.follows

theorem bytes (n : Nat) : Keeps data [] (fun _ => []) (Reader.bytes n) :=
  advances (Reader.bytes_eq n) fun _ _ _ => nofun

theorem take (n : Nat) : Keeps data [] (fun c => [c]) (Reader.take n) := by
  refine advances (Reader.take_eq n) fun c hc hn w hw => ?_
  rw [List.mem_singleton.mp hw]
  refine ⟨hc.take hn, rfl, Nat.le_refl _, ?_⟩
  have hlength : (c.rest.take n).length = n := List.length_take_of_le hn
  change c.offset + (0 + (c.rest.take n).length) ≤ c.base + (c.position + n)
  unfold offset
  omega

/-- What is read inside of a window splits off parts of this window. -/
theorem inside {reader : FileReader α} (h : Keeps data [] u reader) (n : Nat) :
    Keeps data [] u (do
      let contents ← Reader.take n
      Reader.runOn contents reader) := by
  intro before hbefore
  have htake := take n before hbefore
  change Ends _ _ (EStateM.bind (Reader.take n) _ before)
  unfold EStateM.bind
  cases hrun : (Reader.take n : FileReader Cursor) before with
  | error e c =>
      rw [hrun] at htake
      exact htake
  | ok contents c =>
      rw [hrun] at htake
      obtain ⟨hfollows, hcontents⟩ := htake
      have hlies := (hcontents contents List.mem_cons_self).resolve_left List.not_mem_nil
      have hinside := h contents hlies.shows
      change Ends _ _ (Reader.runOn contents reader c)
      unfold Reader.runOn
      cases hread : reader contents with
      | error e last => exact hfollows
      | ok a last =>
          rw [hread] at hinside
          obtain ⟨hmoved, hfound⟩ := hinside
          refine ⟨hfollows, fun w hw => (hfound w hw).imp_right fun hw => hw.mono ?_ ?_⟩
          · exact Nat.le_trans hlies.start (Nat.le_add_right _ _)
          · have hend := last.position_le_size
            have hstop := hlies.stop
            rw [offset, hmoved.base]
            rw [hmoved.size] at hend
            omega

end Keeps

theorem BasicRead.keeps (p : BasicRead) : Keeps data [] (fun found => Found.windows [found]) p.read := by
  cases p with
  | take n => exact .map (.take n) fun _ => rfl
  | slice n => exact .map (.bytes n) fun _ => rfl
  | skip n => exact .map (.map (.bytes n) fun _ => rfl) fun _ => rfl
  | unsigned width =>
    cases width with
    | one | two | four | eight =>
      exact .map (.map (.bytes _) fun _ => rfl) fun _ => rfl
  | signed width =>
    cases width with
    | one | two | four | eight =>
      exact .map (.map (.map (.bytes _) fun _ => rfl) fun _ => rfl)
        fun _ => rfl

@[simp] theorem Found.windows_append (found more : List Found) :
    windows (found ++ more) = windows found ++ windows more := List.filterMap_append

@[simp] theorem Found.windows_flatten (found : List (List Found)) :
    windows found.flatten = found.flatMap windows := by
  rw [windows, List.filterMap_flatten, ← List.flatMap_def]
  rfl

theorem CursorRead.keeps (r : CursorRead) : Keeps data [] Found.windows r.run := by
  induction r with
  | basic p => exact .map p.keeps fun _ => rfl
  | both first next hfirst hnext =>
    refine .bind hfirst fun found => .map (u := fun more => Found.windows found ++ Found.windows more) ?_ ?_
    · exact .frame (hnext found) fun _ => List.Subset.refl _
    · exact Found.windows_append found
  | shortList item ih =>
    refine .map (.bind ?_ fun n => ih.collect _) Found.windows_flatten
    exact .map (.bytes 1) fun _ => rfl
  | list item ih =>
    refine .map (.bind ?_ fun n => ih.collect _) Found.windows_flatten
    exact .map (.bytes 2) fun _ => rfl
  | items n item ih => exact .map (ih.collect n) Found.windows_flatten
  | inside n contents ih => exact .inside ih n

end Keeping

/-- A call reads with one of the cursors. -/
structure CursorCall where
  which : Nat
  read : CursorRead

/-- The cursors behind a call. The others are not touched, and those that were split off are added to them. -/
def CursorCall.perform (cursors : List Cursor) (call : CursorCall) : List Cursor :=
  match cursors[call.which]? with
  | none => cursors
  | some c =>
    match call.read.run c with
    | .ok found c => cursors.set call.which c ++ Found.windows found
    | .error _ c => cursors.set call.which c

/-- The cursors behind calls, the first one of which is at the start of the data. -/
def cursorsAfter (data : List UInt8) (calls : List CursorCall) : List Cursor :=
  calls.foldl CursorCall.perform [.ofBytes data]

/-- Cursors over the data, each of which was moved on in its window, or not at all unless it is a certain one.
Others may have come to them. -/
structure MovedOn (data : List UInt8) (moved : Nat → Prop) (cursors after : List Cursor) : Prop where
  shows : ∀ c ∈ after, c.Shows data
  follows : ∀ i c, cursors[i]? = some c →
    ∃ c', after[i]? = some c' ∧ c.Follows data c' ∧ (¬ moved i → c' = c)

section Calls

variable {data : List UInt8} {cursors between after : List Cursor} {c c' : Cursor} {calls : List CursorCall}

theorem MovedOn.refl (h : ∀ c ∈ cursors, c.Shows data) : MovedOn data (fun _ => False) cursors cursors :=
  ⟨h, fun _ c hc => ⟨c, hc, (h c (List.mem_of_getElem? hc)).follows, fun _ => rfl⟩⟩

theorem MovedOn.trans {moved moved' : Nat → Prop} (h : MovedOn data moved cursors between)
    (h' : MovedOn data moved' between after) : MovedOn data (fun i => moved i ∨ moved' i) cursors after := by
  refine ⟨h'.shows, fun i c hc => ?_⟩
  obtain ⟨c', hc', hfollows, hsame⟩ := h.follows i c hc
  obtain ⟨c'', hc'', hfollows', hsame'⟩ := h'.follows i c' hc'
  refine ⟨c'', hc'', hfollows.trans hfollows', fun hnot => ?_⟩
  rw [not_or] at hnot
  rw [hsame' hnot.2, hsame hnot.1]

theorem MovedOn.mono {moved moved' : Nat → Prop} (h : MovedOn data moved cursors after)
    (hmoved : ∀ i, moved i → moved' i) : MovedOn data moved' cursors after := by
  refine ⟨h.shows, fun i c hc => ?_⟩
  obtain ⟨c', hc', hfollows, hsame⟩ := h.follows i c hc
  exact ⟨c', hc', hfollows, fun hnot => hsame fun hi => hnot (hmoved i hi)⟩

/-- One of the cursors is moved on, and others come to them. -/
theorem MovedOn.set {which : Nat} (h : ∀ c ∈ cursors, c.Shows data) (hc : cursors[which]? = some c)
    (hfollows : c.Follows data c') {more : List Cursor} (hmore : ∀ c ∈ more, c.Shows data) :
    MovedOn data (which = ·) cursors (cursors.set which c' ++ more) := by
  constructor
  · intro d hd
    rcases List.mem_append.mp hd with hd | hd
    · rcases List.mem_or_eq_of_mem_set hd with hd | rfl
      · exact h d hd
      · exact hfollows.shows
    · exact hmore d hd
  · intro i d hd
    have hlength : i < (cursors.set which c').length := by
      rw [List.length_set]
      exact (List.getElem?_eq_some_iff.mp hd).1
    rw [List.getElem?_append_left hlength]
    by_cases hi : which = i
    · subst hi
      rw [hc, Option.some.injEq] at hd
      subst hd
      rw [List.length_set] at hlength
      exact ⟨c', List.getElem?_set_self hlength, hfollows, fun hnot => absurd rfl hnot⟩
    · rw [List.getElem?_set_ne hi]
      exact ⟨d, hd, (h d (List.mem_of_getElem? hd)).follows, fun _ => rfl⟩

/-- A call moves no cursor but the one that it reads with. -/
theorem CursorCall.perform_movedOn (h : ∀ c ∈ cursors, c.Shows data) (call : CursorCall) :
    MovedOn data (call.which = ·) cursors (call.perform cursors) := by
  unfold perform
  cases hc : cursors[call.which]? with
  | none => exact (MovedOn.refl h).mono fun _ => False.elim
  | some c =>
    have hkeeps := call.read.keeps c (h c (List.mem_of_getElem? hc))
    cases hrun : call.read.run c with
    | ok found c' =>
      rw [hrun] at hkeeps
      obtain ⟨hfollows, hfound⟩ := hkeeps
      dsimp only
      rw [hrun]
      exact .set h hc hfollows fun w hw => ((hfound w hw).resolve_left List.not_mem_nil).shows
    | error e c' =>
      rw [hrun] at hkeeps
      have hset := MovedOn.set h hc hkeeps (List.forall_mem_nil _)
      rw [List.append_nil] at hset
      dsimp only
      rwa [hrun]

theorem movedOn_foldl (h : ∀ c ∈ cursors, c.Shows data) (calls : List CursorCall) :
    MovedOn data (fun i => ∃ call ∈ calls, call.which = i) cursors
      (calls.foldl CursorCall.perform cursors) := by
  induction calls generalizing cursors with
  | nil => exact (MovedOn.refl h).mono fun _ => False.elim
  | cons call rest ih =>
    have hfirst := call.perform_movedOn h
    refine (hfirst.trans (ih hfirst.shows)).mono fun i hi => ?_
    rcases hi with hi | ⟨later, hlater, hi⟩
    · exact ⟨call, List.mem_cons_self, hi⟩
    · exact ⟨later, List.mem_cons_of_mem _ hlater, hi⟩

theorem shows_cursorsAfter (data : List UInt8) (calls : List CursorCall) :
    ∀ c ∈ cursorsAfter data calls, c.Shows data :=
  (movedOn_foldl (List.forall_mem_singleton.mpr (Cursor.shows_ofBytes data)) calls).shows

theorem FileReader.finish_eq (what : String) (c : Cursor) :
    FileReader.finish what c =
      if c.position = c.size then .ok () c
      else .error ⟨[], .structural (.unread what c.size c.position)⟩ c := by
  have hend : c.position = c.size ↔ c.isEmpty = true := by
    rw [Cursor.isEmpty, List.isEmpty_iff_length_eq_zero, Cursor.size]
    omega
  change (if (!c.isEmpty) = true then failStructure (.unread what c.size c.position) else pure ()) c = _
  by_cases hposition : c.position = c.size
  · rw [if_pos hposition, hend.mp hposition]
    rfl
  · rw [if_neg hposition, Bool.eq_false_iff.mpr fun hempty => hposition (hend.mpr hempty)]
    rfl

end Calls

/-- Cursors are exact windows of the data, whatever is read with them, and in whatever order. Each of them
stands in its window, which never changes, and no call moves another cursor. A read takes exactly the bytes
that it wants and makes of them what they write; if there are not as many in the window, it fails and leaves
the cursor where it is. What is split off is a part of what the cursor was moved over. A cursor is finished if
and only if it stands at the end of its window. -/
theorem Cursor.windows_exact :
    (∀ data calls, ∀ c ∈ cursorsAfter data calls, c.Shows data) ∧
      (∀ data calls more i c, (cursorsAfter data calls)[i]? = some c →
        ∃ c', (cursorsAfter data (calls ++ more))[i]? = some c' ∧ c'.base = c.base ∧ c'.size = c.size ∧
          c.position ≤ c'.position ∧ ((∀ call ∈ more, call.which ≠ i) → c' = c)) ∧
      (∀ data calls, ∀ c ∈ cursorsAfter data calls, ∀ p : BasicRead,
        p.read c =
          if c.position + p.wanted ≤ c.size then
            .ok (p.value (c.base + c.position) (((c.window data).drop c.position).take p.wanted))
              (c.advance p.wanted)
          else .error ⟨[], .truncated (c.base + c.position) p.wanted⟩ c) ∧
      (∀ data calls, ∀ c ∈ cursorsAfter data calls, ∀ (r : CursorRead) found c', r.run c = .ok found c' →
        ∀ w ∈ Found.windows found, w.position = 0 ∧ c.base + c.position ≤ w.base ∧
          w.base + w.size ≤ c'.base + c'.position) ∧
      ∀ what (c : Cursor), FileReader.finish what c =
        if c.position = c.size then .ok () c
        else .error ⟨[], .structural (.unread what c.size c.position)⟩ c := by
  refine ⟨shows_cursorsAfter, ?_, ?_, ?_, FileReader.finish_eq⟩
  · intro data calls more i c hc
    have hmoved := movedOn_foldl (shows_cursorsAfter data calls) more
    rw [cursorsAfter, ← List.foldl_append, ← cursorsAfter] at hmoved
    obtain ⟨c', hc', hfollows, hsame⟩ := hmoved.follows i c hc
    refine ⟨c', hc', hfollows.base, hfollows.size, hfollows.position, fun hother => hsame ?_⟩
    rintro ⟨call, hcall, hwhich⟩
    exact hother call hcall hwhich
  · exact fun data calls c hc p => p.read_eq (shows_cursorsAfter data calls c hc)
  · intro data calls c hc r found c' hrun w hw
    have hkeeps := r.keeps c (shows_cursorsAfter data calls c hc)
    rw [hrun] at hkeeps
    have hlies := (hkeeps.2 w hw).resolve_left List.not_mem_nil
    exact ⟨hlies.position, hlies.start, hlies.stop⟩

/-- A length, four bytes of that length, and one byte more. -/
def lengthPrefixed : List UInt8 := [0, 0, 0, 4, 9, 9, 9, 9, 7]

/-- The four bytes are split off, and three of them are read. -/
def partlyRead : List Cursor :=
  cursorsAfter lengthPrefixed
    [⟨0, .both (.basic (.unsigned .four)) fun _ => .basic (.take 4)⟩, ⟨1, .basic (.unsigned .two)⟩,
      ⟨1, .basic (.skip 1)⟩]

theorem partlyRead_exact :
    partlyRead = [⟨0, 8, [7]⟩, ⟨4, 3, [9]⟩] ∧
      (BasicRead.unsigned .two).read ⟨4, 3, [9]⟩ = .error ⟨[], .truncated 7 2⟩ ⟨4, 3, [9]⟩ ∧
      (BasicRead.unsigned .one).read ⟨0, 8, [7]⟩ = .ok (.number 7) ⟨0, 9, []⟩ := by
  have hcursors : partlyRead = [⟨0, 8, [7]⟩, ⟨4, 3, [9]⟩] := by decide
  have hmem : ∀ c ∈ [(⟨0, 8, [7]⟩ : Cursor), ⟨4, 3, [9]⟩], c ∈ partlyRead := by
    rw [hcursors]
    exact fun _ hc => hc
  obtain ⟨_, _, hexact, _, _⟩ := Cursor.windows_exact
  exact ⟨hcursors, hexact _ _ _ (hmem ⟨4, 3, [9]⟩ (by decide)) (.unsigned .two),
    hexact _ _ _ (hmem ⟨0, 8, [7]⟩ (by decide)) (.unsigned .one)⟩

end ClassFile
