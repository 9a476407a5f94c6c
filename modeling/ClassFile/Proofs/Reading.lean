import Mathlib.Tactic.Ring
import ClassFile.Proofs.Outcome

/-! Reading numbers. A number that is read is the one that the bytes before the cursor write, and as many bytes
as are known to be left can be read without a fault. Where the bytes ahead of the cursor write a number, it is
read. -/

namespace ClassFile

/-- The bytes that write a signed number in two's complement, the most significant one first. -/
def signedBytes (width : Nat) (n : Int) : List UInt8 := bigEndianBytes width (n % 256 ^ width).toNat

theorem foldl_bigEndian (bytes : List UInt8) (n : Nat) :
    bytes.foldl (fun n b => n * 256 + b.toNat) n = n * 256 ^ bytes.length + bigEndian bytes := by
  induction bytes generalizing n with
  | nil => simp [bigEndian]
  | cons b rest ih =>
      rw [bigEndian, List.foldl_cons, List.foldl_cons, ih, ih, List.length_cons, pow_succ]
      ring

theorem bigEndian_cons (b : UInt8) (bytes : List UInt8) :
    bigEndian (b :: bytes) = b.toNat * 256 ^ bytes.length + bigEndian bytes := by
  rw [bigEndian, List.foldl_cons, foldl_bigEndian, Nat.zero_mul, Nat.zero_add]

theorem bigEndian_lt (bytes : List UInt8) : bigEndian bytes < 256 ^ bytes.length := by
  induction bytes with
  | nil => exact Nat.one_pos
  | cons b rest ih =>
      have hb := b.toNat_lt
      rw [bigEndian_cons, List.length_cons, pow_succ]
      calc b.toNat * 256 ^ rest.length + bigEndian rest
        _ < b.toNat * 256 ^ rest.length + 256 ^ rest.length := Nat.add_lt_add_left ih _
        _ = (b.toNat + 1) * 256 ^ rest.length := (Nat.succ_mul _ _).symm
        _ ≤ 256 * 256 ^ rest.length := Nat.mul_le_mul_right _ (by omega)
        _ = 256 ^ rest.length * 256 := Nat.mul_comm _ _

theorem bigEndianBytes_succ (width n : Nat) :
    bigEndianBytes (width + 1) n = UInt8.ofNat (n / 256 ^ width) :: bigEndianBytes width n := rfl

/-- Digits above the width do not count. -/
theorem bigEndianBytes_add (width m n : Nat) :
    bigEndianBytes width (m * 256 ^ width + n) = bigEndianBytes width n := by
  induction width generalizing m with
  | zero => rfl
  | succ width ih =>
      have hsplit : m * 256 ^ (width + 1) + n = m * 256 * 256 ^ width + n := by ring
      have hdigit : (m * 256 * 256 ^ width + n) / 256 ^ width = n / 256 ^ width + 2 ^ 8 * m := by
        rw [Nat.add_comm, Nat.add_mul_div_right _ _ (Nat.pow_pos (by decide))]
        ring
      rw [bigEndianBytes_succ, bigEndianBytes_succ, hsplit, ih, hdigit]
      congr 1
      rw [← UInt8.toNat_inj, UInt8.toNat_ofNat', UInt8.toNat_ofNat', Nat.add_mul_mod_self_left]

theorem bigEndianBytes_bigEndian (bytes : List UInt8) :
    bigEndianBytes bytes.length (bigEndian bytes) = bytes := by
  induction bytes with
  | nil => rfl
  | cons b rest ih =>
      have hdigit : (b.toNat * 256 ^ rest.length + bigEndian rest) / 256 ^ rest.length = b.toNat := by
        rw [Nat.add_comm, Nat.add_mul_div_right _ _ (Nat.pow_pos (by decide)),
          Nat.div_eq_of_lt (bigEndian_lt rest), Nat.zero_add]
      rw [bigEndian_cons, List.length_cons, bigEndianBytes_succ, hdigit, bigEndianBytes_add, ih,
        UInt8.ofNat_toNat]

theorem bigEndianBytes_one (b : UInt8) : bigEndianBytes 1 b.toNat = [b] := by
  rw [bigEndianBytes_succ, pow_zero, Nat.div_one, UInt8.ofNat_toNat]
  rfl

theorem signedBytes_toInt (width : Nat) (n : BitVec (8 * width)) :
    signedBytes width n.toInt = bigEndianBytes width n.toNat := by
  have hbase : (256 : Int) ^ width = (2 ^ (8 * width) : Nat) := by
    push_cast
    rw [pow_mul]
    norm_num
  rw [signedBytes, hbase, BitVec.toInt_eq_toNat_bmod, Int.bmod_emod, ← Int.natCast_emod,
    Int.toNat_natCast, Nat.mod_eq_of_lt n.isLt]

@[simp] theorem length_bigEndianBytes (width n : Nat) : (bigEndianBytes width n).length = width := by
  induction width with
  | zero => rfl
  | succ width ih => rw [bigEndianBytes_succ, List.length_cons, ih]

@[simp] theorem length_signedBytes (width : Nat) (n : Int) : (signedBytes width n).length = width :=
  length_bigEndianBytes _ _

theorem bigEndian_bigEndianBytes {width n : Nat} (h : n < 256 ^ width) :
    bigEndian (bigEndianBytes width n) = n := by
  induction width generalizing n with
  | zero =>
      rw [pow_zero, Nat.lt_one_iff] at h
      rw [h]
      rfl
  | succ width ih =>
      have hpos : 0 < 256 ^ width := Nat.pow_pos (by decide)
      have hdigit : n / 256 ^ width < 256 := by
        rw [Nat.div_lt_iff_lt_mul hpos, ← Nat.pow_succ']
        exact h
      have hlower : bigEndianBytes width n = bigEndianBytes width (n % 256 ^ width) := by
        conv_lhs => rw [← Nat.div_add_mod' n (256 ^ width), bigEndianBytes_add]
      rw [bigEndianBytes_succ, bigEndian_cons, UInt8.toNat_ofNat_of_lt' hdigit, length_bigEndianBytes,
        hlower, ih (Nat.mod_lt n hpos)]
      exact Nat.div_add_mod' n (256 ^ width)

namespace Cursor

theorem splitFrom?_eq {α : Type} {n : Nat} {items : List α} (found : List α) (h : n ≤ items.length) :
    splitFrom? found n items = some (found.reverse ++ items.take n, items.drop n) := by
  induction n generalizing found items with
  | zero => simp [splitFrom?]
  | succ n ih =>
      cases items with
      | nil => simp at h
      | cons item rest => simp [splitFrom?, ih (item :: found) (Nat.le_of_succ_le_succ h)]

/-- A cursor that was moved behind `front` in some data, of which there are `room` more bytes at least. -/
structure Stands (data front : List UInt8) (room : Nat) (c : Cursor) : Prop where
  data : front ++ c.rest = data
  position : c.position = front.length
  room : room ≤ c.rest.length

end Cursor

section Rules

open Cursor

variable {ε : Type} [Truncatable ε] {failing : ε → Cursor → Prop} {data front : List UInt8} {room : Nat}

theorem yields_bytes (n : Nat) :
    Yields (Stands data front (n + room)) (Reader.bytes n)
      (fun found c => found.length = n ∧ Stands data (front ++ found) room c) failing := by
  intro c hc
  have hn : n ≤ c.rest.length := by
    have := hc.room
    omega
  unfold Reader.bytes Cursor.next? Cursor.split?
  rw [splitFrom?_eq [] hn]
  refine ⟨List.length_take_of_le hn, ?_, ?_, ?_⟩
  · rw [List.reverse_nil, List.nil_append, List.append_assoc, List.take_append_drop]
    exact hc.data
  · rw [List.reverse_nil, List.nil_append, List.length_append, List.length_take_of_le hn,
      hc.position]
  · have := hc.room
    rw [List.length_drop]
    omega

theorem yields_u8 :
    Yields (Stands data front (1 + room)) Reader.u8 (fun n => Stands data (front ++ [n]) room)
      failing := by
  refine .bind (yields_bytes 1) fun found => .pure fun c ⟨hlength, hc⟩ => ?_
  have hnumber : (UInt8.ofNat (bigEndian found)).toNat = bigEndian found :=
    UInt8.toNat_ofNat_of_lt' (Nat.lt_of_lt_of_eq (bigEndian_lt found) (by rw [hlength]; rfl))
  rwa [← bigEndianBytes_one, hnumber, ← hlength, bigEndianBytes_bigEndian]

theorem yields_u16 :
    Yields (Stands data front (2 + room)) Reader.u16
      (fun n => Stands data (front ++ bigEndianBytes 2 n.toNat) room) failing := by
  refine .bind (yields_bytes 2) fun found => .pure fun c ⟨hlength, hc⟩ => ?_
  have hnumber : (UInt16.ofNat (bigEndian found)).toNat = bigEndian found :=
    UInt16.toNat_ofNat_of_lt' (Nat.lt_of_lt_of_eq (bigEndian_lt found) (by rw [hlength]; rfl))
  rwa [hnumber, ← hlength, bigEndianBytes_bigEndian]

theorem yields_u32 :
    Yields (Stands data front (4 + room)) Reader.u32
      (fun n => Stands data (front ++ bigEndianBytes 4 n.toNat) room) failing := by
  refine .bind (yields_bytes 4) fun found => .pure fun c ⟨hlength, hc⟩ => ?_
  have hnumber : (UInt32.ofNat (bigEndian found)).toNat = bigEndian found :=
    UInt32.toNat_ofNat_of_lt' (Nat.lt_of_lt_of_eq (bigEndian_lt found) (by rw [hlength]; rfl))
  rwa [hnumber, ← hlength, bigEndianBytes_bigEndian]

theorem yields_i8 :
    Yields (Stands data front (1 + room)) Reader.i8
      (fun n => Stands data (front ++ signedBytes 1 n.toInt) room) failing := by
  refine .bind yields_u8 fun n => .pure fun c hc => ?_
  change Stands data (front ++ signedBytes 1 n.toBitVec.toInt) room c
  rw [signedBytes_toInt 1]
  exact bigEndianBytes_one n ▸ hc

theorem yields_i16 :
    Yields (Stands data front (2 + room)) Reader.i16
      (fun n => Stands data (front ++ signedBytes 2 n.toInt) room) failing := by
  refine .bind yields_u16 fun n => .pure fun c hc => ?_
  change Stands data (front ++ signedBytes 2 n.toBitVec.toInt) room c
  rwa [signedBytes_toInt 2]

theorem yields_i32 :
    Yields (Stands data front (4 + room)) Reader.i32
      (fun n => Stands data (front ++ signedBytes 4 n.toInt) room) failing := by
  refine .bind yields_u32 fun n => .pure fun c hc => ?_
  change Stands data (front ++ signedBytes 4 n.toBitVec.toInt) room c
  rwa [signedBytes_toInt 4]

end Rules

namespace Reader

variable {ε : Type} [Truncatable ε]

theorem bytes_run {n : Nat} {front : List UInt8} (h : front.length = n) (base position : Nat)
    (more : List UInt8) :
    (bytes n : Reader ε (List UInt8)) ⟨base, position, front ++ more⟩ =
      .ok front ⟨base, position + n, more⟩ := by
  subst h
  unfold bytes Cursor.next? Cursor.split?
  rw [Cursor.splitFrom?_eq [] (by simp)]
  simp

theorem u8_run (base position : Nat) (n : UInt8) (more : List UInt8) :
    (u8 : Reader ε UInt8) ⟨base, position, n :: more⟩ = .ok n ⟨base, position + 1, more⟩ := by
  have hnumber : UInt8.ofNat (bigEndian [n]) = n := by simp [bigEndian]
  have hlength : [n].length = 1 := rfl
  conv_rhs => rw [← hnumber]
  exact bind_run.mpr ⟨_, _, bytes_run hlength base position more, rfl⟩

/-- A number that is written ahead of a cursor is read, and the cursor moved behind it. -/
theorem u16_run (base position : Nat) (n : UInt16) (more : List UInt8) :
    (u16 : Reader ε UInt16) ⟨base, position, bigEndianBytes 2 n.toNat ++ more⟩ =
      .ok n ⟨base, position + 2, more⟩ := by
  have hnumber : UInt16.ofNat (bigEndian (bigEndianBytes 2 n.toNat)) = n := by
    rw [bigEndian_bigEndianBytes n.toNat_lt, UInt16.ofNat_toNat]
  conv_rhs => rw [← hnumber]
  exact bind_run.mpr ⟨_, _, bytes_run (length_bigEndianBytes 2 _) base position more, rfl⟩

theorem i8_run (base position : Nat) (n : Int8) (more : List UInt8) :
    (i8 : Reader ε Int8) ⟨base, position, signedBytes 1 n.toInt ++ more⟩ =
      .ok n ⟨base, position + 1, more⟩ := by
  have hbytes : signedBytes 1 n.toInt = [n.toUInt8] :=
    (signedBytes_toInt 1 n.toBitVec).trans (bigEndianBytes_one n.toUInt8)
  rw [hbytes]
  exact bind_run.mpr ⟨_, _, u8_run base position n.toUInt8 more, rfl⟩

theorem i16_run (base position : Nat) (n : Int16) (more : List UInt8) :
    (i16 : Reader ε Int16) ⟨base, position, signedBytes 2 n.toInt ++ more⟩ =
      .ok n ⟨base, position + 2, more⟩ := by
  have hbytes : signedBytes 2 n.toInt = bigEndianBytes 2 n.toUInt16.toNat :=
    signedBytes_toInt 2 n.toBitVec
  rw [hbytes]
  exact bind_run.mpr ⟨_, _, u16_run base position n.toUInt16 more, rfl⟩

end Reader

section Lists

open Cursor

variable {ε α : Type} {failing : ε → Cursor → Prop} {data front : List UInt8} {room width : Nat}
  {action : EStateM ε Cursor α} {write : α → List UInt8}

/-- Items that are read one after the other are written one after the other. -/
theorem yields_collectFrom
    (haction : ∀ front room, Yields (Stands data front (width + room)) action
      (fun a => Stands data (front ++ write a) room) failing) (found : List α) (n : Nat) :
    Yields (Stands data (front ++ found.reverse.flatMap write) (width * n + room))
      (collectFrom action found n)
      (fun items c => items.length = found.length + n ∧
        Stands data (front ++ items.flatMap write) room c) failing := by
  induction n generalizing found with
  | zero => exact .pure fun c hc => ⟨List.length_reverse, by rwa [Nat.mul_zero, Nat.zero_add] at hc⟩
  | succ n ih =>
      rw [show width * (n + 1) + room = width + (width * n + room) by ring]
      refine .bind (haction _ _) fun a => .mono (ih (a :: found)) ?_ ?_ fun _ _ hfailing => hfailing
      · intro c hc
        rwa [List.reverse_cons, List.flatMap_append, List.flatMap_singleton, ← List.append_assoc]
      · rintro items c ⟨hlength, hc⟩
        rw [List.length_cons] at hlength
        exact ⟨by omega, hc⟩

theorem yields_collect
    (haction : ∀ front room, Yields (Stands data front (width + room)) action
      (fun a => Stands data (front ++ write a) room) failing) (n : Nat) :
    Yields (Stands data front (width * n + room)) (collect n action)
      (fun items c => items.length = n ∧ Stands data (front ++ items.flatMap write) room c) failing := by
  have hitems : Yields (Stands data (front ++ [].reverse.flatMap write) (width * n + room)) _ _ failing :=
    yields_collectFrom haction [] n
  simpa [collect] using hitems

end Lists

end ClassFile
