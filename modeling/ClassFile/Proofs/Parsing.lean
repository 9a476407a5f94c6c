import ClassFile.Proofs.Framing

/-! Readers as parsers of bytes. What most readers find depends on nothing but the bytes ahead of them: not on
where these stand in the data, which only shows in errors. Such a reader is a function from bytes to what it
finds and the bytes that it leaves, and numbers are found in the bytes that write them. -/

namespace ClassFile

/-- Two cursors have the same bytes ahead of them, wherever these stand. -/
def Cursor.SameAhead (c d : Cursor) : Prop := c.rest = d.rest

/-- A reader finds the same in the same bytes, wherever they stand. -/
abbrev Placeless {α : Type} (reader : FileReader α) : Prop :=
  Lockstep Cursor.SameAhead (fun _ => False) reader

/-- What a reader finds in some bytes, and the bytes that it leaves. -/
def FileReader.parse {α : Type} (reader : FileReader α) (bytes : List UInt8) : Option (α × List UInt8) :=
  (success? (reader (.ofBytes bytes))).map fun found => (found.1, found.2.rest)

variable {α β : Type}

namespace FileReader

variable {reader : FileReader α} {bytes rest : List UInt8} {a : α}

theorem parse_eq_some :
    parse reader bytes = some (a, rest) ↔
      ∃ after, reader (.ofBytes bytes) = .ok a after ∧ after.rest = rest := by
  unfold parse
  cases reader (.ofBytes bytes) with
  | ok b after => simp [success?]
  | error error after => simp [success?]

/-- Where the bytes stand does not matter. -/
theorem parse_rest (h : Placeless reader) (c : Cursor) :
    parse reader c.rest = some (a, rest) ↔ ∃ after, reader c = .ok a after ∧ after.rest = rest := by
  rw [parse_eq_some]
  have hsame : Cursor.SameAhead (.ofBytes c.rest) c := rfl
  constructor
  · rintro ⟨after, hrun, rfl⟩
    obtain ⟨after', hrun', hafter⟩ := (h _ _ hsame).of_first hrun
    exact ⟨after', hrun', hafter.symm⟩
  · rintro ⟨after, hrun, rfl⟩
    rcases (h _ _ hsame).of_second hrun with ⟨after', hrun', hafter⟩ | ⟨_, _, _, hcut⟩
    · exact ⟨after', hrun', hafter⟩
    · exact hcut.elim

theorem parse_pure (a : α) (bytes : List UInt8) : parse (pure a) bytes = some (a, bytes) := rfl

theorem parse_bind (reader : FileReader α) {next : α → FileReader β} (h : ∀ a, Placeless (next a))
    (bytes : List UInt8) :
    parse (reader >>= next) bytes =
      (parse reader bytes).bind fun found => parse (next found.1) found.2 := by
  ext ⟨b, rest⟩
  rw [parse_eq_some, Option.bind_eq_some_iff]
  constructor
  · rintro ⟨after, hrun, hrest⟩
    obtain ⟨a, between, hrun, hnext⟩ := bind_run.mp hrun
    have hparse : parse reader bytes = some (a, between.rest) :=
      parse_eq_some.mpr ⟨between, hrun, rfl⟩
    exact ⟨(a, between.rest), hparse, (parse_rest (h a) between).mpr ⟨after, hnext, hrest⟩⟩
  · rintro ⟨⟨a, left⟩, hfirst, hnext⟩
    obtain ⟨between, hrun, rfl⟩ := parse_eq_some.mp hfirst
    obtain ⟨after, hnext, hrest⟩ := (parse_rest (h a) between).mp hnext
    exact ⟨after, bind_run.mpr ⟨a, between, hrun, hnext⟩, hrest⟩

theorem parse_bind_some {next : α → FileReader β} (h : ∀ a, Placeless (next a))
    (hread : parse reader bytes = some (a, rest)) :
    parse (reader >>= next) bytes = parse (next a) rest := by
  rw [parse_bind reader h, hread, Option.bind_some]

theorem parse_bind_ok {next : α → FileReader β} (h : ∀ a, Placeless (next a)) {found : β × List UInt8}
    (hparse : parse (reader >>= next) bytes = some found) :
    ∃ a rest, parse reader bytes = some (a, rest) ∧ parse (next a) rest = some found := by
  rw [parse_bind reader h, Option.bind_eq_some_iff] at hparse
  obtain ⟨⟨a, rest⟩, hread, hnext⟩ := hparse
  exact ⟨a, rest, hread, hnext⟩

/-- Readers that parse bytes alike come to the same from any cursors at those bytes, or both fail. -/
theorem agree_of_parse {other : FileReader α} (h : Placeless reader) (hother : Placeless other)
    {c d : Cursor} {more : List UInt8} (hparse : parse reader c.rest = parse other d.rest)
    (hmore : ∀ a rest, parse reader c.rest = some (a, rest) → rest = more) :
    Agree (fun s t => s.rest = more ∧ t.rest = more) (fun _ => False) (reader c) (other d) := by
  cases hrun : reader c with
  | ok a after =>
      have hfirst := (parse_rest h c).mpr ⟨after, hrun, rfl⟩
      obtain ⟨after', hrun', hafter⟩ := (parse_rest hother d).mp (hparse ▸ hfirst)
      have hrest := hmore a _ hfirst
      rw [hrun']
      exact ⟨rfl, hrest, hafter.trans hrest⟩
  | error error after =>
      cases hrun' : other d with
      | ok b after' =>
          have hsecond := (parse_rest hother d).mpr ⟨after', hrun', rfl⟩
          obtain ⟨_, hfirst, _⟩ := (parse_rest h c).mp (hparse.trans hsecond)
          cases hrun.symm.trans hfirst
      | error _ _ => trivial

theorem placeless_ofPool (result : Except Pool.Located α) : Placeless (ofPool result) := by
  cases result with
  | ok value => exact .pure value
  | error located => exact .throw _

theorem placeless_ofExcept (result : Except Error α) : Placeless (ofExcept result) := by
  cases result with
  | ok value => exact .pure value
  | error error => exact .throw _

theorem placeless_within (place : Place) {reader : FileReader α} (h : Placeless reader) :
    Placeless (within place reader) := by
  intro c d hsame
  unfold within
  rcases (h c d hsame).cases with ⟨value, s, t, hc, hd, hafter⟩ | ⟨error, s, hc, ⟨_, _, _, hcut⟩ | ⟨_, t, hd⟩⟩
  · rw [hc, hd]
    exact ⟨rfl, hafter⟩
  · exact hcut.elim
  · rw [hc, hd]
    trivial

theorem placeless_finish (what : String) : Placeless (finish what) := by
  intro c d hsame
  have hempty : d.isEmpty = c.isEmpty := by
    rw [Cursor.isEmpty, Cursor.isEmpty, show c.rest = d.rest from hsame]
  unfold finish
  rw [get_bind_run, get_bind_run, hempty]
  split
  · trivial
  · exact ⟨rfl, hsame⟩

theorem parse_finish (what : String) (bytes : List UInt8) :
    parse (finish what) bytes = if bytes.isEmpty then some ((), bytes) else none := by
  unfold parse finish
  rw [get_bind_run]
  cases bytes <;> rfl

theorem parse_ofPool (result : Except Pool.Located α) (bytes : List UInt8) :
    parse (ofPool result) bytes = result.toOption.map fun a => (a, bytes) := by
  cases result <;> rfl

theorem placeless_fillOnce [Outlined α] (attributes : List Attribute) (old : Option α) (new : α) :
    Placeless (fillOnce attributes old new) := by
  unfold fillOnce
  split
  · exact .pure _
  · exact placeless_within _ (.throw _)

theorem parse_ofExcept (result : Except Error α) (bytes : List UInt8) :
    parse (ofExcept result) bytes = result.toOption.map fun a => (a, bytes) := by
  cases result <;> rfl

end FileReader

namespace Reader

open FileReader

theorem placeless_bytes (n : Nat) : Placeless (bytes n) := by
  intro c d hsame
  have hrest : c.rest = d.rest := hsame
  unfold bytes
  rw [Cursor.next?_eq, Cursor.next?_eq, Cursor.remaining, Cursor.remaining, hrest]
  by_cases hn : n ≤ d.rest.length
  · rw [if_pos hn, if_pos hn]
    exact ⟨rfl, hrest ▸ rfl⟩
  · rw [if_neg hn, if_neg hn]
    trivial

theorem placeless_u8 : Placeless u8 := .bind (placeless_bytes 1) fun _ => .pure _

theorem placeless_u16 : Placeless u16 := .bind (placeless_bytes 2) fun _ => .pure _

theorem placeless_u32 : Placeless u32 := .bind (placeless_bytes 4) fun _ => .pure _

theorem placeless_list {item : FileReader α} (h : Placeless item) : Placeless (list item) :=
  .bind placeless_u16 fun _ => h.collect _

theorem placeless_skipRest : Placeless (skipRest (ε := Error)) := by
  intro c d hsame
  have hremaining : d.remaining = c.remaining := congrArg List.length (Eq.symm hsame)
  unfold skipRest
  rw [get_bind_run, get_bind_run, hremaining]
  exact Lockstep.bind (placeless_bytes _) (fun _ => .pure ()) c d hsame

/-- An entry of a constant pool at an index that is read. -/
theorem placeless_atIndex (resolve : UInt16 → Except Pool.Located α) {next : α → FileReader β}
    (h : ∀ a, Placeless (next a)) :
    Placeless (do next (← FileReader.ofPool (resolve (← u16)))) :=
  .bind placeless_u16 fun index => .bind (placeless_ofPool (resolve index)) h

theorem take_eq (n : Nat) (c : Cursor) :
    (take n : FileReader Cursor) c =
      if n ≤ c.remaining then
        .ok ⟨c.offset, 0, c.rest.take n⟩ ⟨c.base, c.position + n, c.rest.drop n⟩
      else .error (Truncatable.truncated c.offset n) c := by
  have hnext := Cursor.next?_eq c n
  unfold take Cursor.take?
  by_cases hn : n ≤ c.remaining
  · rw [if_pos hn] at hnext
    rw [hnext, if_pos hn]
  · rw [if_neg hn] at hnext
    rw [hnext, if_neg hn]

/-- What is split off is read in the same way if what is done with it does not depend on where it stood. -/
theorem placeless_take_bind {n : Nat} {next : Cursor → FileReader α}
    (h : ∀ c d, Cursor.SameAhead c d → ∀ s t, Cursor.SameAhead s t →
      Agree Cursor.SameAhead (fun _ => False) (next c s) (next d t)) :
    Placeless (take n >>= next) := by
  intro c d hsame
  have hrest : c.rest = d.rest := hsame
  change Agree _ _ (EStateM.bind (take n) next c) (EStateM.bind (take n) next d)
  unfold EStateM.bind
  rw [take_eq, take_eq, Cursor.remaining, Cursor.remaining, hrest]
  by_cases hn : n ≤ d.rest.length
  · rw [if_pos hn, if_pos hn]
    have hcontents : Cursor.SameAhead ⟨c.offset, 0, d.rest.take n⟩ ⟨d.offset, 0, d.rest.take n⟩ := rfl
    have hbehind : Cursor.SameAhead ⟨c.base, c.position + n, d.rest.drop n⟩
        ⟨d.base, d.position + n, d.rest.drop n⟩ := rfl
    exact h _ _ hcontents _ _ hbehind
  · rw [if_neg hn, if_neg hn]
    trivial

theorem agree_runOn {reader : FileReader α} (h : Placeless reader) {c d s t : Cursor}
    (hcontents : Cursor.SameAhead c d) (hsame : Cursor.SameAhead s t) :
    Agree Cursor.SameAhead (fun _ => False) (runOn c reader s) (runOn d reader t) := by
  unfold runOn
  rcases (h c d hcontents).cases with ⟨value, _, _, hc, hd, _⟩ | ⟨_, _, hc, ⟨_, _, _, hcut⟩ | ⟨_, _, hd⟩⟩
  · rw [hc, hd]
    exact ⟨rfl, hsame⟩
  · exact hcut.elim
  · rw [hc, hd]
    trivial

theorem parse_runOn {reader : FileReader α} (h : Placeless reader) (contents : Cursor)
    (data : List UInt8) :
    parse (runOn contents reader) data = (parse reader contents.rest).map fun found => (found.1, data) := by
  ext ⟨a, rest⟩
  rw [parse_eq_some, Option.map_eq_some_iff]
  unfold runOn
  constructor
  · rintro ⟨after, hrun, rfl⟩
    split at hrun
    · rename_i value after' hreader
      cases hrun
      exact ⟨(a, after'.rest), (parse_rest h contents).mpr ⟨after', hreader, rfl⟩, rfl⟩
    · cases hrun
  · rintro ⟨⟨b, left⟩, hparse, hsame⟩
    cases hsame
    obtain ⟨after', hreader, _⟩ := (parse_rest h contents).mp hparse
    exact ⟨.ofBytes data, by rw [hreader], rfl⟩

theorem parse_take_bind {n : Nat} {next : Cursor → FileReader α} (h : ∀ contents, Placeless (next contents))
    {front : List UInt8} (hlength : front.length = n) (more : List UInt8) :
    parse (take n >>= next) (front ++ more) = parse (next (.ofBytes front)) more := by
  subst hlength
  have hfits : front.length ≤ (Cursor.ofBytes (front ++ more)).remaining := by
    change front.length ≤ (front ++ more).length
    rw [List.length_append]
    exact Nat.le_add_right _ _
  have htake : (take front.length : FileReader Cursor) (.ofBytes (front ++ more)) =
      .ok (.ofBytes front) ⟨0, 0 + front.length, more⟩ := by
    rw [take_eq, if_pos hfits]
    simp [Cursor.ofBytes, Cursor.offset]
  ext ⟨a, rest⟩
  rw [parse_eq_some]
  constructor
  · rintro ⟨after, hrun, rfl⟩
    obtain ⟨_, _, hfirst, hnext⟩ := bind_run.mp hrun
    rw [htake] at hfirst
    cases hfirst
    exact (parse_rest (h _) ⟨0, 0 + front.length, more⟩).mpr ⟨after, hnext, rfl⟩
  · intro hparse
    obtain ⟨after, hnext, hrest⟩ := (parse_rest (h _) ⟨0, 0 + front.length, more⟩).mp hparse
    exact ⟨after, bind_run.mpr ⟨_, _, htake, hnext⟩, hrest⟩

/-- What is split off has the length that was asked for, if the rest of the data can be read. -/
theorem parse_take_bind_ok {n : Nat} {next : Cursor → FileReader α} {data rest : List UInt8} {a : α}
    (h : parse (take n >>= next) data = some (a, rest)) :
    ∃ front more, data = front ++ more ∧ front.length = n := by
  obtain ⟨after, hrun, _⟩ := parse_eq_some.mp h
  obtain ⟨_, _, hfirst, _⟩ := bind_run.mp hrun
  rw [take_eq] at hfirst
  split at hfirst
  · rename_i hn
    exact ⟨data.take n, data.drop n, (List.take_append_drop n data).symm, List.length_take_of_le hn⟩
  · cases hfirst

theorem parse_bytes (n : Nat) (data : List UInt8) :
    parse (bytes n) data =
      if n ≤ data.length then some (data.take n, data.drop n) else none := by
  have hnext := Cursor.next?_eq (.ofBytes data) n
  rw [show (Cursor.ofBytes data).remaining = data.length from rfl] at hnext
  unfold parse bytes
  by_cases hn : n ≤ data.length
  · rw [if_pos hn] at hnext
    rw [hnext, if_pos hn]
    rfl
  · rw [if_neg hn] at hnext
    rw [hnext, if_neg hn]
    rfl

theorem parse_bytes_append {n : Nat} {front : List UInt8} (h : front.length = n) (more : List UInt8) :
    parse (bytes n) (front ++ more) = some (front, more) := by
  subst h
  rw [parse_bytes, if_pos (by simp), List.take_left', List.drop_left'] <;> rfl

theorem parse_bytes_ok {n : Nat} {data front more : List UInt8}
    (h : parse (bytes n) data = some (front, more)) :
    data = front ++ more ∧ front.length = n := by
  rw [parse_bytes] at h
  split at h
  · rename_i hn
    cases h
    exact ⟨(List.take_append_drop n data).symm, List.length_take_of_le hn⟩
  · cases h

end Reader

namespace Reader

open FileReader

theorem u16_bind_run (base position : Nat) (n : UInt16) (more : List UInt8) (next : UInt16 → FileReader α) :
    (u16 >>= next) ⟨base, position, bigEndianBytes 2 n.toNat ++ more⟩ =
      next n ⟨base, position + 2, more⟩ := by
  change EStateM.bind u16 next _ = _
  rw [EStateM.bind, u16_run]

variable {data rest : List UInt8}

section Numbers

variable {ω : Type} {width : Nat} {ofNat : Nat → ω} {toNat : ω → Nat}

theorem parse_number (hof : ∀ n, ofNat (toNat n) = n) (hlt : ∀ n, toNat n < 256 ^ width) (n : ω)
    (more : List UInt8) :
    parse (do return ofNat (bigEndian (← bytes width))) (bigEndianBytes width (toNat n) ++ more) =
      some (n, more) := by
  rw [parse_bind _ fun _ => .pure _, parse_bytes_append (length_bigEndianBytes width _)]
  change some (ofNat (bigEndian (bigEndianBytes width (toNat n))), more) = _
  rw [bigEndian_bigEndianBytes (hlt n), hof]

theorem parse_number_ok (hto : ∀ n < 256 ^ width, toNat (ofNat n) = n) {n : ω}
    (h : parse (do return ofNat (bigEndian (← bytes width))) data = some (n, rest)) :
    data = bigEndianBytes width (toNat n) ++ rest := by
  obtain ⟨front, more, hbytes, hnumber⟩ := parse_bind_ok (fun _ => .pure _) h
  obtain ⟨rfl, hlength⟩ := parse_bytes_ok hbytes
  cases hnumber
  rw [hto _ (Nat.lt_of_lt_of_eq (bigEndian_lt front) (by rw [hlength])), ← hlength,
    bigEndianBytes_bigEndian]
  rfl

end Numbers

theorem parse_u16 (n : UInt16) (more : List UInt8) :
    parse u16 (bigEndianBytes 2 n.toNat ++ more) = some (n, more) :=
  parse_number (fun _ => UInt16.ofNat_toNat) UInt16.toNat_lt n more

theorem parse_u32 (n : UInt32) (more : List UInt8) :
    parse u32 (bigEndianBytes 4 n.toNat ++ more) = some (n, more) :=
  parse_number (fun _ => UInt32.ofNat_toNat) UInt32.toNat_lt n more

theorem parse_u16_ofNat {n : Nat} (h : n < 65536) (more : List UInt8) :
    parse u16 (bigEndianBytes 2 n ++ more) = some (UInt16.ofNat n, more) := by
  conv_lhs => rw [← UInt16.toNat_ofNat_of_lt' h, parse_u16]

theorem parse_u32_ofNat {n : Nat} (h : n < 2 ^ 32) (more : List UInt8) :
    parse u32 (bigEndianBytes 4 n ++ more) = some (UInt32.ofNat n, more) := by
  conv_lhs => rw [← UInt32.toNat_ofNat_of_lt' h, parse_u32]

theorem parse_u16_ok {n : UInt16} (h : parse u16 data = some (n, rest)) :
    data = bigEndianBytes 2 n.toNat ++ rest :=
  parse_number_ok (fun _ hn => UInt16.toNat_ofNat_of_lt' hn) h

theorem parse_u32_ok {n : UInt32} (h : parse u32 data = some (n, rest)) :
    data = bigEndianBytes 4 n.toNat ++ rest :=
  parse_number_ok (fun _ hn => UInt32.toNat_ofNat_of_lt' hn) h

/-- A number that was read stood ahead of the cursor. -/
theorem u16_run_ok {n : UInt16} {c after : Cursor} (h : (u16 : FileReader UInt16) c = .ok n after) :
    c.rest = bigEndianBytes 2 n.toNat ++ after.rest :=
  parse_u16_ok ((parse_rest placeless_u16 c).mpr ⟨after, h, rfl⟩)

section Lists

variable {ι : Type} {item : FileReader α} {written : ι → List UInt8}

/-- Items that are written one after the other are read one after the other. -/
theorem parse_collectFrom {value? : ι → Option α} (h : Placeless item)
    (hitem : ∀ i more, parse item (written i ++ more) = (value? i).map fun a => (a, more))
    (items : List ι) (found : List α) (more : List UInt8) :
    parse (collectFrom item found items.length) (items.flatMap written ++ more) =
      (items.mapM value?).map fun values => (found.reverse ++ values, more) := by
  induction items generalizing found with
  | nil =>
      rw [List.mapM_nil]
      exact congrArg (fun found => some (found, more)) (List.append_nil _).symm
  | cons i rest ih =>
      rw [List.flatMap_cons, List.append_assoc, List.length_cons, List.mapM_cons]
      change parse (item >>= fun value => collectFrom item (value :: found) rest.length) _ = _
      rw [parse_bind _ fun value => h.collectFrom (value :: found) _, hitem]
      cases value? i with
      | none => rfl
      | some value =>
          change parse (collectFrom item (value :: found) rest.length) _ = _
          rw [ih, List.reverse_cons]
          cases hrest : rest.mapM value? with
          | none => rfl
          | some values => simp

/-- A list is read from the bytes that write it. -/
theorem parse_list {value? : ι → Option α} (h : Placeless item)
    (hitem : ∀ i more, parse item (written i ++ more) = (value? i).map fun a => (a, more))
    {items : List ι} (hcount : items.length < 65536) (more : List UInt8) :
    parse (list item) (bigEndianBytes 2 items.length ++ (items.flatMap written ++ more)) =
      (items.mapM value?).map fun values => (values, more) := by
  unfold list
  rw [parse_bind_some (fun _ => h.collect _) (parse_u16_ofNat hcount _), UInt16.toNat_ofNat_of_lt' hcount]
  exact parse_collectFrom h hitem items [] more

theorem parse_collectFrom_ok (h : Placeless item)
    (hitem : ∀ {data a more}, parse item data = some (a, more) → ∃ i, data = written i ++ more) {n : Nat}
    {found values : List α} (hparse : parse (collectFrom item found n) data = some (values, rest)) :
    ∃ items : List ι, items.length = n ∧ data = items.flatMap written ++ rest := by
  induction n generalizing found data with
  | zero =>
      cases hparse
      exact ⟨[], rfl, rfl⟩
  | succ n ih =>
      change parse (item >>= fun value => collectFrom item (value :: found) n) _ = _ at hparse
      obtain ⟨value, left, hone, hrest⟩ :=
        parse_bind_ok (fun value => h.collectFrom (value :: found) _) hparse
      obtain ⟨i, rfl⟩ := hitem hone
      obtain ⟨items, hlength, rfl⟩ := ih hrest
      exact ⟨i :: items, congrArg (· + 1) hlength, by rw [List.flatMap_cons, List.append_assoc]⟩

/-- What is read as a list was written as one. -/
theorem parse_list_ok (h : Placeless item)
    (hitem : ∀ {data a more}, parse item data = some (a, more) → ∃ i, data = written i ++ more)
    {values : List α} (hparse : parse (list item) data = some (values, rest)) :
    ∃ items : List ι, items.length < 65536 ∧
      data = bigEndianBytes 2 items.length ++ (items.flatMap written ++ rest) := by
  unfold list at hparse
  obtain ⟨count, left, hcount, hitems⟩ := parse_bind_ok (fun _ => h.collect _) hparse
  obtain ⟨items, hlength, rfl⟩ := parse_collectFrom_ok h hitem hitems
  exact ⟨items, hlength ▸ count.toNat_lt, by rw [parse_u16_ok hcount, hlength]⟩

end Lists

end Reader

end ClassFile
