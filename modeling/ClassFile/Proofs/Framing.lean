import ClassFile.AttributeTable
import ClassFile.Proofs.Lockstep
import ClassFile.Proofs.Reading

/-! Reading data that was cut off. A reader that never looks at what lies ahead of it reads a part of some
data as it reads the whole, up to the point at which it asks for bytes behind the end. What it splits off to be
read on its own was there as a whole, so that this is read in the same way in any case. -/

namespace ClassFile

/-- Two cursors at the same place of some data, of which the one has `more` behind the offset at which the
other one ends. -/
structure Cursor.Continues (more : List UInt8) (stop : Nat) (short long : Cursor) : Prop where
  long : long = { short with rest := short.rest ++ more }
  stop : short.offset + short.remaining = stop

/-- Bytes were wanted from an offset on, of which some lie behind the end. -/
def Error.CutAt (stop : Nat) (error : Error) : Prop :=
  ∃ offset wanted, error.fault = .truncated offset wanted ∧ offset ≤ stop ∧ stop < offset + wanted

/-- A reader reads data that ends too early as it reads the whole, up to the end. -/
abbrev Framed {α : Type} (more : List UInt8) (stop : Nat) (reader : FileReader α) : Prop :=
  Lockstep (Cursor.Continues more stop) (Error.CutAt stop) reader

theorem Cursor.splitFrom?_eq_none {α : Type} {n : Nat} {items : List α} (found : List α)
    (h : items.length < n) : splitFrom? found n items = none := by
  induction n generalizing found items with
  | zero => exact absurd h (Nat.not_lt_zero _)
  | succ n ih =>
      cases items with
      | nil => rfl
      | cons item rest => exact ih (item :: found) (Nat.lt_of_succ_lt_succ h)

variable {α : Type} {more : List UInt8} {stop : Nat}

namespace Cursor

theorem next?_eq (c : Cursor) (n : Nat) :
    c.next? n = if n ≤ c.remaining then
        some (c.rest.take n, ⟨c.base, c.position + n, c.rest.drop n⟩)
      else none := by
  unfold next? split? remaining
  by_cases hn : n ≤ c.rest.length
  · rw [splitFrom?_eq [] hn, if_pos hn]
    rfl
  · rw [splitFrom?_eq_none [] (Nat.not_le.mp hn), if_neg hn]

/-- The next bytes of two such cursors are the same ones, if they lie in front of the end. -/
theorem Continues.next {short long : Cursor} (h : Continues more stop short long) (n : Nat) :
    (∃ front short' long', short.next? n = some (front, short') ∧ long.next? n = some (front, long') ∧
        Continues more stop short' long') ∨
      short.next? n = none ∧ Error.CutAt stop ⟨[], .truncated short.offset n⟩ := by
  obtain ⟨rfl, hstop⟩ := h
  by_cases hn : n ≤ short.remaining
  · have hlong : n ≤ (short.rest ++ more).length := by
      rw [List.length_append]
      exact Nat.le_trans hn (Nat.le_add_right _ _)
    refine .inl ⟨short.rest.take n, ⟨short.base, short.position + n, short.rest.drop n⟩,
      ⟨short.base, short.position + n, short.rest.drop n ++ more⟩, ?_, ?_, ⟨rfl, ?_⟩⟩
    · rw [next?_eq, if_pos hn]
    · rw [next?_eq, remaining, if_pos hlong, List.take_append_of_le_length hn,
        List.drop_append_of_le_length hn]
    · change short.base + (short.position + n) + (short.rest.drop n).length = stop
      have hremaining : (short.rest.drop n).length = short.remaining - n := List.length_drop
      rw [hremaining, ← hstop, offset]
      omega
  · refine .inr ⟨by rw [next?_eq, if_neg hn], short.offset, n, rfl, ?_, ?_⟩
    · exact hstop ▸ Nat.le_add_right _ _
    · omega

end Cursor

namespace FileReader

theorem framed_ofPool (result : Except Pool.Located α) : Framed more stop (ofPool result) := by
  cases result with
  | ok value => exact .pure value
  | error located => exact .throw _

theorem framed_ofExcept (result : Except Error α) : Framed more stop (ofExcept result) := by
  cases result with
  | ok value => exact .pure value
  | error error => exact .throw _

theorem framed_within (place : Place) {reader : FileReader α} (h : Framed more stop reader) :
    Framed more stop (within place reader) := by
  intro short long hcursors
  unfold within
  rcases (h short long hcursors).cases with
    ⟨value, s, t, hshort, hlong, hnext⟩ | ⟨error, s, hshort, ⟨value, t, hlong, hcut⟩ | ⟨_, t, hlong⟩⟩
  · rw [hshort, hlong]
    exact ⟨rfl, hnext⟩
  · rw [hshort, hlong]
    exact hcut
  · rw [hshort, hlong]
    trivial

end FileReader

namespace Reader

open FileReader

theorem framed_bytes (n : Nat) : Framed more stop (bytes n) := by
  intro short long hcursors
  unfold bytes
  rcases hcursors.next n with ⟨front, short', long', hshort, hlong, hnext⟩ | ⟨hshort, hcut⟩
  · rw [hshort, hlong]
    exact ⟨rfl, hnext⟩
  · rw [hshort]
    cases long.next? n with
    | none => trivial
    | some found => exact hcut

/-- What is split off is the same, also as far as offsets go. -/
theorem framed_take (n : Nat) : Framed more stop (take n) := by
  intro short long hcursors
  unfold take Cursor.take?
  rcases hcursors.next n with ⟨front, short', long', hshort, hlong, hnext⟩ | ⟨hshort, hcut⟩
  · obtain ⟨rfl, hstop⟩ := hcursors
    rw [hshort, hlong]
    exact ⟨rfl, hnext⟩
  · rw [hshort]
    cases long.next? n with
    | none => trivial
    | some found => exact hcut

theorem framed_u8 : Framed more stop u8 := .bind (framed_bytes 1) fun _ => .pure _

theorem framed_u16 : Framed more stop u16 := .bind (framed_bytes 2) fun _ => .pure _

theorem framed_u32 : Framed more stop u32 := .bind (framed_bytes 4) fun _ => .pure _

theorem framed_u64 : Framed more stop u64 := .bind (framed_bytes 8) fun _ => .pure _

theorem framed_list {item : FileReader α} (h : Framed more stop item) : Framed more stop (list item) :=
  .bind framed_u16 fun _ => h.collect _

/-- What reads from a cursor of its own does not depend on how the data goes on. -/
theorem framed_runOn (contents : Cursor) (reader : FileReader α) :
    Framed more stop (runOn contents reader) := by
  intro short long hcursors
  unfold runOn
  cases reader contents with
  | ok value after => exact ⟨rfl, hcursors⟩
  | error error after => trivial

/-- An entry of a constant pool at an index that is read. -/
theorem framed_atIndex {β : Type} (resolve : UInt16 → Except Pool.Located α) {next : α → FileReader β}
    (h : ∀ a, Framed more stop (next a)) :
    Framed more stop (do next (← FileReader.ofPool (resolve (← u16)))) :=
  .bind framed_u16 fun index => .bind (framed_ofPool (resolve index)) h

end Reader

namespace AttributeTable

open FileReader Reader

variable (pool : Pool) (location : Location) (version : Version)

theorem framed_frame : Framed more stop (frame pool location version) := by
  refine framed_atIndex pool.utf8At fun name => .bind framed_u32 fun length => ?_
  refine .bind (framed_take _) fun contents => ?_
  split
  · exact .pure _
  · split
    · exact .throw _
    · exact .pure _

/-- A table is framed whatever reads the contents of its attributes. -/
theorem framed_read (add : α → Attribute → FileReader α) (none : α) :
    Framed more stop (read pool location version add none) := by
  refine .bind framed_u16 fun count => .iterate (fun so => ?_) none _
  refine .bind (framed_frame pool location version) fun framed => ?_
  cases framed with
  | none => exact .pure so
  | some framed => exact framed_runOn framed.2 _

end AttributeTable

end ClassFile
