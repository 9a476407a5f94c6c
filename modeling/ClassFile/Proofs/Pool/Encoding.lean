import ClassFile.Proofs.Consuming
import ClassFile.Proofs.Text.ModifiedUtf8
import ClassFile.Proofs.Pool.Insertion
import ClassFile.Pool.Reading

/-! Writing a constant pool. What is written are the count and the entries in the order of their indices, and
a pool is read from some bytes if and only if they begin with those that write it. So nothing that can be
read is lost, and pools are read back whatever stands behind them. -/

namespace ClassFile.Pool

open Cursor Reader FileReader

namespace Entry

/-- The bytes that write an entry behind the byte that marks its kind. -/
def contents : Entry → List UInt8
  | .utf8 text =>
    bigEndianBytes 2 (ModifiedUtf8.encode text).length ++ ModifiedUtf8.encode text
  | .integer value => signedBytes 4 value.toInt
  | .float bits => bigEndianBytes 4 bits.toNat
  | .long value => signedBytes 8 value.toInt
  | .double bits => bigEndianBytes 8 bits.toNat
  | .classInfo index | .string index | .methodType index | .moduleInfo index | .packageInfo index =>
    bigEndianBytes 2 index.toNat
  | .fieldRef first second | .methodRef first second | .interfaceMethodRef first second
  | .nameAndType first second | .dynamic first second | .invokeDynamic first second =>
    bigEndianBytes 2 first.toNat ++ bigEndianBytes 2 second.toNat
  | .methodHandle kind reference => kind :: bigEndianBytes 2 reference.toNat

/-- The bytes that write an entry. -/
def encode (entry : Entry) : List UInt8 := entry.tag.byte :: entry.contents

/-- A text can be written in an entry only if its length can, and it is read again only if no two of its
surrogates could be a single code point. -/
def Writable : Entry → Prop
  | .utf8 text => (ModifiedUtf8.encode text).length < 65536 ∧ text.Unpaired
  | _ => True

/-- What the indices hold that an entry takes. -/
def slots (entry : Entry) : List Slot :=
  if entry.tag.isWide then [.entry entry, .phantom] else [.entry entry]

theorem readText_ok {c c' : Cursor} {text : Text} :
    readText c = .ok text c' ↔ ((ModifiedUtf8.encode text).length < 65536 ∧ text.Unpaired) ∧
      c.Passes (bigEndianBytes 2 (ModifiedUtf8.encode text).length ++ ModifiedUtf8.encode text) c' := by
  have hbytes : ∀ {b : UInt8} {c c' : Cursor},
      (u8 : FileReader UInt8) c = .ok b c' ↔ True ∧ c.Passes [b] c' := by
    intro b c c'
    rw [u8_ok, true_and]
  unfold readText
  simp only [bind_run, list_ok hbytes, List.flatMap_singleton']
  constructor
  · rintro ⟨bytes, d, ⟨hlength, _, hpasses⟩, hrun⟩
    cases hdecode : ModifiedUtf8.decode bytes with
    | error fault =>
        rw [hdecode] at hrun
        cases hrun
    | ok found =>
        rw [hdecode] at hrun
        cases hrun
        obtain ⟨rfl, hunpaired⟩ := ModifiedUtf8.decode_ok.mp hdecode
        exact ⟨⟨hlength, hunpaired⟩, hpasses⟩
  · rintro ⟨⟨hlength, hunpaired⟩, hpasses⟩
    refine ⟨_, c', ⟨hlength, fun _ _ => trivial, hpasses⟩, ?_⟩
    rw [ModifiedUtf8.decode_ok.mpr ⟨rfl, hunpaired⟩]
    rfl

/-- The entry that is read is of the kind that was asked for. -/
theorem gives_read (tag : Tag) : Gives (fun entry => entry.tag = tag) (Entry.read tag) := by
  cases tag with
  | fieldRef | methodRef | interfaceMethodRef | nameAndType | methodHandle | dynamic | invokeDynamic =>
      exact .skip fun _ => .skip fun _ => .pure rfl
  | _ => exact .skip fun _ => .pure rfl

theorem read_ok {tag : Tag} {c c' : Cursor} {entry : Entry} :
    Entry.read tag c = .ok entry c' ↔ entry.tag = tag ∧ entry.Writable ∧ c.Passes entry.contents c' := by
  by_cases htag : entry.tag = tag
  · subst htag
    have hhandle : ∀ kind (reference : UInt16),
        c.Passes (contents (.methodHandle kind reference)) c' ↔
          ∃ d, c.Passes [kind] d ∧ d.Passes (bigEndianBytes 2 reference.toNat) c' :=
      fun _ _ => passes_cons
    cases entry <;>
      simp only [Entry.tag, Entry.read, bind_run, pure_run, readText_ok, i32_ok, i64_ok, u8_ok, u16_ok,
        u32_ok, u64_ok] <;>
      simp [Writable, hhandle] <;> simp [contents, passes_append]
  · exact ⟨fun h => absurd ((gives_read tag).of_ok h) htag, fun h => absurd h.1 htag⟩

end Entry

theorem Tag.ofByte?_eq_some {b : UInt8} {tag : Tag} : Tag.ofByte? b = some tag ↔ tag.byte = b := by
  unfold Tag.ofByte?
  constructor
  · intro h
    have := List.find?_some h
    exact of_decide_eq_true this
  · rintro rfl
    cases tag <;> rfl

theorem readTag_ok {version : Version} {index : UInt16} {c c' : Cursor} {tag : Tag} :
    readTag version index c = .ok tag c' ↔
      version.compare tag.introducedIn ≠ .lt ∧ c.Passes [tag.byte] c' := by
  unfold readTag
  simp only [bind_run, u8_ok]
  constructor
  · rintro ⟨b, d, hbyte, hrun⟩
    cases hfound : Tag.ofByte? b with
    | none =>
        rw [hfound] at hrun
        cases hrun
    | some found =>
        rw [hfound] at hrun
        dsimp only at hrun
        split at hrun
        · cases hrun
        · rename_i hallowed
          cases hrun
          rw [Tag.ofByte?_eq_some.mp hfound]
          exact ⟨hallowed, hbyte⟩
  · rintro ⟨hallowed, hbyte⟩
    refine ⟨tag.byte, c', hbyte, ?_⟩
    rw [Tag.ofByte?_eq_some.mpr rfl]
    dsimp only
    rw [if_neg hallowed]
    rfl

variable {pool after : Pool}

theorem Entry.slots_of_wide {entry : Entry} (h : entry.tag.isWide = true) :
    entry.slots = [.entry entry, .phantom] := if_pos h

theorem Entry.slots_of_narrow {entry : Entry} (h : ¬entry.tag.isWide = true) :
    entry.slots = [.entry entry] := if_neg h

theorem Entry.length_slots (entry : Entry) :
    entry.slots.length = if entry.tag.isWide = true then 2 else 1 := by
  unfold Entry.slots
  split <;> rfl

theorem Entry.length_slots_pos (entry : Entry) : 0 < entry.slots.length := by
  rw [Entry.length_slots]
  split <;> exact Nat.succ_pos _

theorem eq_of_toList {pool after : Pool} (h : pool.slots.toList = after.slots.toList) : pool = after := by
  cases pool
  cases after
  exact congrArg Pool.mk (Array.toList_inj.mp h)

section Behind

variable {front : List Slot} {room : Nat}
  (hslots : pool.slots.toList = front ++ List.replicate room .vacant)

include hslots

theorem getElem?_behind (i : Nat) :
    pool.slots[front.length + i]? = if i < room then some .vacant else none := by
  rw [← Array.getElem?_toList, hslots, List.getElem?_append_right (Nat.le_add_right _ _),
    Nat.add_sub_cancel_left, List.getElem?_replicate]

variable (hfront : 1 ≤ front.length) (hsize : front.length + room < 65536)

include hfront hsize

/-- There is room for an entry at the first free index if there are enough indices left. -/
theorem hasRoom_behind (entry : Entry) :
    pool.HasRoom (UInt16.ofNat (front.length + room)) (UInt16.ofNat front.length) entry ↔
      entry.slots.length ≤ room := by
  have hindex : (UInt16.ofNat front.length).toNat = front.length :=
    UInt16.toNat_ofNat_of_lt' (Nat.lt_of_le_of_lt (Nat.le_add_right _ _) hsize)
  have hcount : (UInt16.ofNat (front.length + room)).toNat = front.length + room :=
    UInt16.toNat_ofNat_of_lt' hsize
  have hfree := getElem?_behind hslots 0
  have hnext := getElem?_behind hslots 1
  constructor
  · intro h
    have hinside := UInt16.lt_iff_toNat_lt.mp h.inside
    by_cases hwide : entry.tag.isWide = true
    · have hbehind := (h.next (Entry.wide_iff.mpr hwide)).1
      rw [Entry.slots_of_wide hwide]
      change 2 ≤ room
      omega
    · rw [Entry.slots_of_narrow hwide]
      change 1 ≤ room
      omega
  · intro h
    have hpositive := entry.length_slots_pos
    refine ⟨?_, ?_, ?_, fun hwide => ?_⟩
    · rw [UInt16.le_iff_toNat_le, hindex]
      exact hfront
    · exact UInt16.lt_iff_toNat_lt.mpr (by omega)
    · rw [hindex, ← Nat.add_zero front.length, hfree, if_pos (by omega)]
    · rw [Entry.slots_of_wide (Entry.wide_iff.mp hwide)] at h
      have hroom : 1 < room := h
      rw [hindex, hcount, hnext, if_pos hroom]
      exact ⟨by omega, rfl⟩

omit hfront in
theorem put_behind {entry : Entry} {left : Nat} (hroom : room = entry.slots.length + left) :
    (pool.put (UInt16.ofNat front.length) entry).slots.toList =
      front ++ entry.slots ++ List.replicate left .vacant := by
  have hindex : (UInt16.ofNat front.length).toNat = front.length :=
    UInt16.toNat_ofNat_of_lt' (Nat.lt_of_le_of_lt (Nat.le_add_right _ _) hsize)
  unfold put
  dsimp only
  rw [Nat.add_comm] at hroom
  by_cases hwide : entry.tag.isWide = true
  · rw [Entry.slots_of_wide hwide] at hroom ⊢
    rw [if_pos hwide, hindex, Array.toList_setIfInBounds, Array.toList_setIfInBounds, hslots, hroom]
    simp [List.replicate_succ]
  · rw [Entry.slots_of_narrow hwide] at hroom ⊢
    rw [if_neg hwide, hindex, Array.toList_setIfInBounds, hslots, hroom]
    simp [List.replicate_succ]

/-- An entry is put at the first free index, if there are enough indices left for it. -/
theorem insert_behind {entry : Entry} :
    pool.insert (UInt16.ofNat front.length) entry = .ok after ↔
      ∃ left, room = entry.slots.length + left ∧
        after.slots.toList = front ++ entry.slots ++ List.replicate left .vacant := by
  have hcount : pool.slots.size = (UInt16.ofNat (front.length + room)).toNat := by
    rw [UInt16.toNat_ofNat_of_lt' hsize, ← Array.length_toList, hslots, List.length_append,
      List.length_replicate]
  rw [insert_ok]
  rcases fill_run hcount (UInt16.ofNat front.length) entry with ⟨hroom, hrun⟩ | ⟨hnone, located, hrun⟩
  · have hlength := (hasRoom_behind hslots hfront hsize entry).mp hroom
    obtain ⟨left, hleft⟩ := Nat.exists_eq_add_of_le hlength
    have hput := put_behind hslots hsize hleft
    rw [hrun]
    constructor
    · rintro ⟨⟩
      exact ⟨left, hleft, hput⟩
    · rintro ⟨left', hleft', hafter⟩
      have hsame : left' = left := by omega
      rw [hsame, ← hput] at hafter
      rw [eq_of_toList hafter]
  · rw [hrun]
    refine ⟨nofun, fun ⟨left, hleft, _⟩ => absurd ?_ hnone⟩
    exact (hasRoom_behind hslots hfront hsize entry).mpr (hleft ▸ Nat.le_add_right _ _)

end Behind

/-- An entry that can stand in a class file of a version, and that can be read again when it was written. -/
def Entry.WritableIn (version : Version) (entry : Entry) : Prop :=
  version.compare entry.tag.introducedIn ≠ .lt ∧ entry.Writable

variable {version : Version}

theorem readEntry_ok {index : UInt16} {tag : Tag} {c c' : Cursor} :
    readEntry version pool index c = .ok (tag, after) c' ↔
      ∃ entry, tag = entry.tag ∧ entry.WritableIn version ∧ pool.insert index entry = .ok after ∧
        c.Passes entry.encode c' := by
  unfold readEntry
  change (readTag version index >>= fun tag => within (.readingEntry index tag) (Entry.read tag) >>=
    fun entry => ofPool (pool.insert index entry) >>= fun after => pure (tag, after)) c = _ ↔ _
  simp only [bind_run, pure_run, readTag_ok, within_ok, Entry.read_ok, ofPool_run, Prod.mk.injEq]
  constructor
  · rintro ⟨_, d, ⟨hallowed, hbyte⟩, entry, _, ⟨rfl, hwritable, hcontents⟩, _, _, ⟨hinsert, rfl⟩,
      ⟨rfl, rfl⟩, rfl⟩
    exact ⟨entry, rfl, ⟨hallowed, hwritable⟩, hinsert, passes_cons.mpr ⟨d, hbyte, hcontents⟩⟩
  · rintro ⟨entry, rfl, ⟨hallowed, hwritable⟩, hinsert, hpasses⟩
    obtain ⟨d, hbyte, hcontents⟩ := passes_cons.mp hpasses
    exact ⟨_, d, ⟨hallowed, hbyte⟩, entry, c', ⟨rfl, hwritable, hcontents⟩, after, c', ⟨hinsert, rfl⟩,
      ⟨rfl, rfl⟩, rfl⟩

section Filling

variable {front : List Slot} {room : Nat}
  (hslots : pool.slots.toList = front ++ List.replicate room .vacant) (hfront : 1 ≤ front.length)
  (hsize : front.length + room < 65536)

include hslots hfront hsize

/-- As long as there is room, one more entry is read and put at the first free index. -/
theorem readEntriesFrom_step (hroom : room ≠ 0) {result : Pool} {c c' : Cursor} :
    readEntriesFrom version (front.length + room) front.length pool c = .ok result c' ↔
      ∃ (entry : Entry) (left : Nat) (after : Pool) (d : Cursor), entry.WritableIn version ∧
        room = entry.slots.length + left ∧
        after.slots.toList = front ++ entry.slots ++ List.replicate left .vacant ∧
        c.Passes entry.encode d ∧
        readEntriesFrom version ((front ++ entry.slots).length + left) (front ++ entry.slots).length after d =
          .ok result c' := by
  have hindex : ∀ entry : Entry, (front.length + if entry.tag.isWide = true then 2 else 1) =
      (front ++ entry.slots).length := by
    intro entry
    rw [List.length_append, Entry.length_slots]
  have hcount : ∀ {entry : Entry} {left : Nat}, room = entry.slots.length + left →
      (front ++ entry.slots).length + left = front.length + room := by
    rintro entry left rfl
    rw [List.length_append, Nat.add_assoc]
  rw [readEntriesFrom, if_pos (by omega)]
  simp only [bind_run, Prod.exists, readEntry_ok, insert_behind hslots hfront hsize]
  constructor
  · rintro ⟨_, after, d, ⟨entry, rfl, hentry, ⟨left, hleft, hafter⟩, hfirst⟩, hrest⟩
    rw [hindex, ← hcount hleft] at hrest
    exact ⟨entry, left, after, d, hentry, hleft, hafter, hfirst, hrest⟩
  · rintro ⟨entry, left, after, d, hentry, hleft, hafter, hfirst, hrest⟩
    refine ⟨_, after, d, ⟨entry, rfl, hentry, ⟨left, hleft, hafter⟩, hfirst⟩, ?_⟩
    rwa [hindex, ← hcount hleft]

omit hslots hfront hsize in
theorem eq_nil_of_no_slots {entries : List Entry} (h : 0 = (entries.flatMap Entry.slots).length) :
    entries = [] := by
  cases entries with
  | nil => rfl
  | cons entry rest =>
      have hpositive := entry.length_slots_pos
      rw [List.flatMap_cons, List.length_append] at h
      omega

/-- The entries that fill the rest of a pool are read from the bytes that write them. -/
theorem readEntriesFrom_ok {result : Pool} {c c' : Cursor} :
    readEntriesFrom version (front.length + room) front.length pool c = .ok result c' ↔
      ∃ entries : List Entry, (∀ entry ∈ entries, entry.WritableIn version) ∧
        result.slots.toList = front ++ entries.flatMap Entry.slots ∧
        room = (entries.flatMap Entry.slots).length ∧ c.Passes (entries.flatMap Entry.encode) c' := by
  induction room using Nat.strong_induction_on generalizing front pool c with
  | _ room ih =>
      by_cases hroom : room = 0
      · subst hroom
        rw [readEntriesFrom, if_neg (by omega), pure_run]
        constructor
        · rintro ⟨rfl, rfl⟩
          exact ⟨[], nofun, hslots, rfl, passes_nil.mpr rfl⟩
        · rintro ⟨entries, _, hresult, hlength, hpasses⟩
          obtain rfl := eq_nil_of_no_slots hlength
          exact ⟨eq_of_toList (hslots.trans hresult.symm), (passes_nil.mp hpasses).symm⟩
      · rw [readEntriesFrom_step hslots hfront hsize hroom]
        have hrest : ∀ {entry : Entry} {left : Nat}, room = entry.slots.length + left →
            left < room ∧ 1 ≤ (front ++ entry.slots).length ∧
              (front ++ entry.slots).length + left < 65536 := by
          intro entry left hleft
          have hpositive := entry.length_slots_pos
          have hfilled : (front ++ entry.slots).length = front.length + entry.slots.length :=
            List.length_append
          omega
        constructor
        · rintro ⟨entry, left, after, d, hentry, hleft, hafter, hfirst, hrun⟩
          obtain ⟨hless, hfilled, hsmall⟩ := hrest hleft
          obtain ⟨entries, hentries, hresult, hlength, hpasses⟩ :=
            (ih left hless hafter hfilled hsmall).mp hrun
          refine ⟨entry :: entries, List.forall_mem_cons.mpr ⟨hentry, hentries⟩, ?_, ?_, ?_⟩
          · rw [hresult, List.flatMap_cons, List.append_assoc]
          · rw [hleft, hlength, List.flatMap_cons, List.length_append]
          · exact passes_append.mpr ⟨d, hfirst, hpasses⟩
        · rintro ⟨entries, hentries, hresult, hlength, hpasses⟩
          cases entries with
          | nil => exact absurd hlength hroom
          | cons entry rest =>
              rw [List.flatMap_cons, ← List.append_assoc] at hresult
              rw [List.flatMap_cons, List.length_append] at hlength
              obtain ⟨d, hfirst, hpasses⟩ := passes_append.mp hpasses
              obtain ⟨hentry, hentries⟩ := List.forall_mem_cons.mp hentries
              have hput := put_behind hslots hsize hlength
              obtain ⟨hless, hfilled, hsmall⟩ := hrest hlength
              exact ⟨entry, _, _, d, hentry, hlength, hput, hfirst,
                (ih _ hless hput hfilled hsmall).mpr ⟨rest, hentries, hresult, rfl, hpasses⟩⟩

end Filling

/-- The entries that a pool holds, one behind the other from index one on. -/
def Lays (pool : Pool) (entries : List Entry) : Prop :=
  pool.slots.toList = .vacant :: entries.flatMap Entry.slots

/-- The bytes that an index of a pool is written in. Nothing is written for index zero, nor for the second
index of a wide entry. -/
def Slot.encode : Slot → List UInt8
  | .entry found => found.encode
  | .vacant | .phantom => []

/-- The bytes that write a pool: its count, and its entries in the order of their indices. -/
def encode (pool : Pool) : List UInt8 :=
  bigEndianBytes 2 pool.slots.size ++ pool.slots.toList.flatMap Slot.encode

theorem Lays.encode {entries : List Entry} (h : pool.Lays entries) :
    pool.encode = bigEndianBytes 2 pool.slots.size ++ entries.flatMap Entry.encode := by
  have hentry : ∀ entry : Entry, entry.slots.flatMap Slot.encode = entry.encode := by
    intro entry
    unfold Entry.slots
    split <;> simp [Slot.encode]
  rw [Pool.encode, show pool.slots.toList = _ from h, List.flatMap_cons, List.flatMap_assoc]
  simp only [hentry]
  rfl

theorem Lays.size {entries : List Entry} (h : pool.Lays entries) :
    pool.slots.size = 1 + (entries.flatMap Entry.slots).length := by
  rw [← Array.length_toList, show pool.slots.toList = _ from h, List.length_cons, Nat.add_comm]

theorem toList_empty {count : UInt16} {room : Nat} (h : count.toNat = 1 + room) :
    (empty count).slots.toList = [Slot.vacant] ++ List.replicate room .vacant := by
  rw [empty, Array.toList_replicate, h, Nat.add_comm]
  rfl

/-- A pool that is read holds entries one behind the other, and was written by them. -/
theorem read_lays {c c' : Cursor} :
    Pool.read version c = .ok pool c' ↔ ∃ entries : List Entry, pool.Lays entries ∧
      (∀ entry ∈ entries, entry.WritableIn version) ∧ pool.slots.size < 65536 ∧
      c.Passes pool.encode c' := by
  unfold Pool.read
  simp only [bind_run, u16_ok]
  constructor
  · rintro ⟨count, d, hcount, hrun⟩
    split at hrun
    · cases hrun
    · rename_i hpositive
      have hpositive : 1 ≤ count.toNat := Nat.pos_of_ne_zero fun h => hpositive (UInt16.toNat_inj.mp h)
      obtain ⟨room, hroom⟩ := Nat.exists_eq_add_of_le hpositive
      have hsmall : 1 + room < 65536 := hroom ▸ count.toNat_lt
      rw [hroom] at hrun
      obtain ⟨entries, hentries, hslots, hsize, hpasses⟩ :=
        (readEntriesFrom_ok (toList_empty hroom) (Nat.le_refl _) hsmall).mp hrun
      have hlays : pool.Lays entries := hslots
      have hcounted : pool.slots.size = count.toNat := by rw [hlays.size, hroom, hsize]
      refine ⟨entries, hlays, hentries, hcounted ▸ count.toNat_lt, ?_⟩
      rw [hlays.encode, hcounted]
      exact passes_append.mpr ⟨d, hcount, hpasses⟩
  · rintro ⟨entries, hlays, hentries, hsize, hpasses⟩
    rw [hlays.encode] at hpasses
    obtain ⟨d, hcount, hpasses⟩ := passes_append.mp hpasses
    have hcounted : (UInt16.ofNat pool.slots.size).toNat = pool.slots.size := UInt16.toNat_ofNat_of_lt' hsize
    have hroom := hcounted.trans (hlays.size)
    refine ⟨UInt16.ofNat pool.slots.size, d, by rwa [hcounted], ?_⟩
    rw [if_neg fun h => ?_]
    · rw [hroom]
      exact (readEntriesFrom_ok (toList_empty hroom) (Nat.le_refl _) (hlays.size ▸ hsize)).mpr
        ⟨entries, hentries, hlays, rfl, hpasses⟩
    · rw [h] at hroom
      change 0 = 1 + _ at hroom
      omega

/-- A pool that can be written in a class file of a version and read again. Entries were put into it until
no index was free, its version allows all of them, and their texts can be written. -/
structure Writable (version : Version) (pool : Pool) : Prop where
  filled : ∃ count calls, 1 ≤ count ∧ pool = (History.ofCalls count calls).pool
  full : ∀ i, 1 ≤ i → pool.slots[i]? ≠ some .vacant
  entries : ∀ (i : Nat) entry, pool.slots[i]? = some (.entry entry) → entry.WritableIn version

theorem drop_of_getElem? {i : Nat} {slot : Slot} (h : pool.slots[i]? = some slot) :
    pool.slots.toList.drop i = slot :: pool.slots.toList.drop (i + 1) := by
  rw [← Array.getElem?_toList] at h
  obtain ⟨hinside, rfl⟩ := List.getElem?_eq_some_iff.mp h
  exact List.drop_eq_getElem_cons hinside

section Filled

variable {made : History} {count : UInt16}

/-- An entry takes the slots that it should, and what stands behind them is no phantom. -/
theorem drop_of_filled (hfilled : History.Filled count made) {i : Nat} {entry : Entry}
    (hentry : made.pool.slots[i]? = some (.entry entry)) :
    made.pool.slots.toList.drop i = entry.slots ++ made.pool.slots.toList.drop (i + entry.slots.length) ∧
      made.pool.slots[i + entry.slots.length]? ≠ some .phantom := by
  rw [drop_of_getElem? hentry]
  by_cases hwide : entry.Wide
  · have hphantom := (hfilled.phantom i).mpr ⟨entry, hentry, hwide⟩
    rw [drop_of_getElem? hphantom, Entry.slots_of_wide (Entry.wide_iff.mp hwide)]
    refine ⟨rfl, fun h => ?_⟩
    obtain ⟨_, h, _⟩ := (hfilled.phantom (i + 1)).mp h
    rw [hphantom] at h
    cases h
  · rw [Entry.slots_of_narrow fun h => hwide (Entry.wide_iff.mpr h)]
    refine ⟨rfl, fun h => ?_⟩
    obtain ⟨found, h, hfound⟩ := (hfilled.phantom i).mp h
    rw [hentry] at h
    cases h
    exact hwide hfound

/-- From an index on, entries lie one behind the other if no index is free. -/
theorem exists_entries_from (hfilled : History.Filled count made)
    (hfull : ∀ i, 1 ≤ i → made.pool.slots[i]? ≠ some .vacant) {i : Nat} (hi : 1 ≤ i)
    (hstart : made.pool.slots[i]? ≠ some .phantom) :
    ∃ entries : List Entry, made.pool.slots.toList.drop i = entries.flatMap Entry.slots := by
  induction hleft : made.pool.slots.size - i using Nat.strong_induction_on generalizing i with
  | _ left ih =>
      cases hread : made.pool.slots[i]? with
      | none =>
          rw [Array.getElem?_eq_none_iff] at hread
          exact ⟨[], List.drop_eq_nil_of_le (by simpa using hread)⟩
      | some slot =>
          have hinside := (Array.getElem?_eq_some_iff.mp hread).1
          cases slot with
          | vacant => exact absurd hread (hfull i hi)
          | phantom => exact absurd hread hstart
          | entry entry =>
              have hpositive := entry.length_slots_pos
              obtain ⟨hslots, hnext⟩ := drop_of_filled hfilled hread
              obtain ⟨rest, hrest⟩ := ih _ (by omega) (Nat.le_add_right_of_le hi) hnext rfl
              exact ⟨entry :: rest, by rw [hslots, hrest, List.flatMap_cons]⟩

end Filled

/-- Entries lie one behind the other if no index is free and the phantoms stand behind wide entries. -/
theorem lays_of_writable (h : pool.Writable version) : ∃ entries, pool.Lays entries := by
  obtain ⟨count, calls, hcount, rfl⟩ := h.filled
  have hfilled := History.filled_ofCalls count calls
  have hpositive : 0 < (History.ofCalls count calls).pool.slots.size := by
    rw [hfilled.size]
    exact UInt16.le_iff_toNat_le.mp hcount
  have hzero : (History.ofCalls count calls).pool.slots[0]? = some .vacant := by
    rw [Array.getElem?_eq_getElem hpositive]
    exact congrArg some (hfilled.zero _ (Array.getElem?_eq_getElem hpositive))
  have hstart : (History.ofCalls count calls).pool.slots[1]? ≠ some .phantom := by
    intro h
    obtain ⟨_, h, _⟩ := (hfilled.phantom 0).mp h
    rw [hzero] at h
    cases h
  obtain ⟨entries, hentries⟩ := exists_entries_from hfilled h.full (Nat.le_refl 1) hstart
  exact ⟨entries, (drop_of_getElem? hzero).trans (congrArg _ hentries)⟩

theorem Lays.mem {entries : List Entry} (h : pool.Lays entries) {entry : Entry} :
    (∃ i : Nat, pool.slots[i]? = some (.entry entry)) ↔ entry ∈ entries := by
  have hslots : ∀ {found : Entry}, Slot.entry entry ∈ found.slots ↔ entry = found := by
    intro found
    unfold Entry.slots
    split <;> simp
  simp only [← Array.getElem?_toList, ← List.mem_iff_getElem?]
  rw [show pool.slots.toList = _ from h]
  simp [List.mem_flatMap, hslots]

theorem Lays.full {entries : List Entry} (h : pool.Lays entries) (i : Nat) (hi : 1 ≤ i) :
    pool.slots[i]? ≠ some .vacant := by
  obtain ⟨i, rfl⟩ := Nat.exists_eq_add_of_le' hi
  rw [← Array.getElem?_toList, show pool.slots.toList = _ from h, List.getElem?_cons_succ]
  intro hvacant
  obtain ⟨entry, _, hslot⟩ := List.mem_flatMap.mp (List.mem_of_getElem? hvacant)
  unfold Entry.slots at hslot
  split at hslot <;> simp at hslot

/-- Entries can be put one behind the other. -/
theorem exists_calls {entries : List Entry} {front : List Slot} {made : History}
    (hslots : made.pool.slots.toList =
      front ++ List.replicate (entries.flatMap Entry.slots).length .vacant)
    (hfront : 1 ≤ front.length) (hsize : front.length + (entries.flatMap Entry.slots).length < 65536) :
    ∃ calls : List (UInt16 × Entry),
      (calls.foldl History.attempt made).pool.slots.toList = front ++ entries.flatMap Entry.slots := by
  induction entries generalizing front made with
  | nil => exact ⟨[], hslots⟩
  | cons entry rest ih =>
      rw [List.flatMap_cons, List.length_append] at hslots hsize
      rw [List.flatMap_cons, ← List.append_assoc]
      have hput := put_behind hslots hsize rfl
      have hrun := insert_ok.mp ((insert_behind hslots hfront hsize).mpr ⟨_, rfl, hput⟩)
      have hattempt : (made.attempt (UInt16.ofNat front.length, entry)).pool =
          made.pool.put (UInt16.ofNat front.length) entry := by
        rw [History.attempt, hrun]
      rw [← hattempt] at hput
      have hlength : (front ++ entry.slots).length = front.length + entry.slots.length := List.length_append
      obtain ⟨calls, hcalls⟩ := ih hput (by omega) (by omega)
      exact ⟨(UInt16.ofNat front.length, entry) :: calls, hcalls⟩

theorem Lays.filled {entries : List Entry} (h : pool.Lays entries) (hsize : pool.slots.size < 65536) :
    ∃ count calls, 1 ≤ count ∧ pool = (History.ofCalls count calls).pool := by
  have hcount : (UInt16.ofNat pool.slots.size).toNat = 1 + (entries.flatMap Entry.slots).length :=
    (UInt16.toNat_ofNat_of_lt' hsize).trans h.size
  obtain ⟨calls, hcalls⟩ :=
    @exists_calls _ _ ⟨_, []⟩ (toList_empty hcount) (Nat.le_refl _) (h.size ▸ hsize)
  refine ⟨_, calls, ?_, eq_of_toList ((show pool.slots.toList = _ from h).trans hcalls.symm)⟩
  rw [UInt16.le_iff_toNat_le, hcount]
  exact Nat.le_add_right _ _

/-- What is read as a pool was written as one. -/
theorem writable_of_read {c c' : Cursor} (h : Pool.read version c = .ok pool c') :
    pool.Writable version ∧ c.Passes pool.encode c' := by
  obtain ⟨entries, hlays, hentries, hsize, hpasses⟩ := read_lays.mp h
  refine ⟨⟨hlays.filled hsize, hlays.full, fun i entry hi => ?_⟩, hpasses⟩
  exact hentries entry (hlays.mem.mp ⟨i, hi⟩)

/-- A pool is read from the bytes that write it. -/
theorem read_of_writable {c c' : Cursor} (hwritable : pool.Writable version)
    (hpasses : c.Passes pool.encode c') : Pool.read version c = .ok pool c' := by
  obtain ⟨entries, hlays⟩ := lays_of_writable hwritable
  obtain ⟨count, calls, _, hpool⟩ := hwritable.filled
  refine read_lays.mpr ⟨entries, hlays, fun entry hentry => ?_, ?_, hpasses⟩
  · obtain ⟨i, hi⟩ := hlays.mem.mpr hentry
    exact hwritable.entries i entry hi
  · rw [hpool, (History.filled_ofCalls count calls).size]
    exact count.toNat_lt

/-- Reading a pool is the inverse of writing it. A pool that was filled up by insertions, with entries that
the version allows and texts that can be written, is read from the bytes that write it, whatever stands
behind them, and the cursor is left right there. And whatever is read as a pool is such a pool, and the bytes
that were read over are the ones that write it. -/
theorem read_iff_written (version : Version) (pool : Pool) (c c' : Cursor) :
    Pool.read version c = .ok pool c' ↔ pool.Writable version ∧ c.Passes pool.encode c' :=
  ⟨writable_of_read, fun ⟨hwritable, hpasses⟩ => read_of_writable hwritable hpasses⟩

end ClassFile.Pool
