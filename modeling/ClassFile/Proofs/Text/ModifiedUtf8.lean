import Mathlib.Data.List.Chain
import ClassFile.Text.ModifiedUtf8

/-! Reading and writing text. A code point is written in one of four forms or, if it is supplementary, as two
surrogates in the last of them, so that bytes are read as a text only if they are the ones that write it. The
texts that are read back are those in which no two surrogates could be a single code point. -/

namespace ClassFile

theorem CodePoint.eq_of_value {c d : CodePoint} (h : c.value = d.value) : c = d := by
  cases c
  cases d
  cases h
  rfl

/-- No high surrogate stands right in front of a low one. -/
def Text.Unpaired (text : Text) : Prop :=
  List.IsChain (fun c d => ¬(c.isHighSurrogate = true ∧ d.isLowSurrogate = true)) text

namespace ModifiedUtf8

/-- The forms in which code points below `0x10000` are written. -/
inductive Form : List UInt8 → CodePoint → Prop where
  | zero : Form [0xC0, 0x80] (point 0)
  | one {a : UInt8} (hpositive : 0 < a.toNat) (ha : a.toNat < 0x80) : Form [a] (point a.toNat)
  | two {a b : UInt8} (ha : 0xC2 ≤ a.toNat ∧ a.toNat < 0xE0) (hb : isContinuation b = true) :
      Form [a, b] (two a b)
  | three {a b c : UInt8} (ha : 0xE0 ≤ a.toNat ∧ a.toNat < 0xF0) (hb : isContinuation b = true)
      (hc : isContinuation c = true) (hlong : a.toNat = 0xE0 → 0xA0 ≤ b.toNat) :
      Form [a, b, c] (three a b c)

theorem value_point {n : Nat} (h : n < 0x110000) : (point n).value = n := by
  rw [point, CodePoint.ofNat?, dif_pos h]
  rfl

theorem isContinuation_iff {b : UInt8} : isContinuation b = true ↔ 0x80 ≤ b.toNat ∧ b.toNat < 0xC0 := by
  rw [isContinuation, Bool.and_eq_true, decide_eq_true_eq, decide_eq_true_eq, UInt8.le_iff_toNat_le,
    UInt8.lt_iff_toNat_lt]
  rfl

theorem value_two (a b : UInt8) : (two a b).value = a.toNat % 32 * 64 + b.toNat % 64 :=
  value_point (by unfold low; omega)

theorem value_three (a b c : UInt8) :
    (three a b c).value = a.toNat % 16 * 4096 + b.toNat % 64 * 64 + c.toNat % 64 :=
  value_point (by unfold low; omega)

theorem ofNat_eq {n : Nat} {b : UInt8} (h : n = b.toNat) : UInt8.ofNat n = b := by
  rw [h, UInt8.ofNat_toNat]

/-- What is written in one of the forms is written as its number is. -/
theorem Form.encodes {front : List UInt8} {c : CodePoint} (h : Form front c) :
    c.value < 0x10000 ∧ encodeUnit c.value = front := by
  cases h with
  | zero =>
      rw [value_point (by decide)]
      exact ⟨by decide, rfl⟩
  | @one a hpositive ha =>
      rw [value_point (by omega), encodeUnit, if_neg (by omega), if_pos ha, UInt8.ofNat_toNat]
      exact ⟨by omega, rfl⟩
  | @two a b ha hb =>
      have hb := isContinuation_iff.mp hb
      rw [value_two, encodeUnit, if_neg (by omega), if_neg (by omega), if_pos (by omega),
        ofNat_eq (b := a) (by omega), ofNat_eq (b := b) (by omega)]
      exact ⟨by omega, rfl⟩
  | @three a b c ha hb hc hlong =>
      have hb := isContinuation_iff.mp hb
      have hc := isContinuation_iff.mp hc
      rw [value_three, encodeUnit, if_neg (by omega), if_neg (by omega), if_neg (by omega),
        ofNat_eq (b := a) (by omega), ofNat_eq (b := b) (by omega), ofNat_eq (b := c) (by omega)]
      exact ⟨by omega, rfl⟩

/-- Each number is written in one of the forms. -/
theorem form_encodeUnit {c : CodePoint} (hc : c.value < 0x10000) : Form (encodeUnit c.value) c := by
  have hbyte : ∀ n, n < 256 → (UInt8.ofNat n).toNat = n := fun n hn => UInt8.toNat_ofNat_of_lt' hn
  unfold encodeUnit
  split
  · rename_i hzero
    rw [show c = point 0 from CodePoint.eq_of_value ((value_point (by decide)).trans hzero.symm).symm]
    exact .zero
  · split
    · rename_i hzero hone
      have ha := hbyte c.value (by omega)
      have hform := Form.one (a := UInt8.ofNat c.value) (by omega) (by omega)
      rwa [ha, CodePoint.eq_of_value (value_point c.isLt)] at hform
    · split
      · rename_i htwo
        have ha := hbyte (0xC0 + c.value / 64) (by omega)
        have hb := hbyte (0x80 + c.value % 64) (by omega)
        generalize UInt8.ofNat (0xC0 + c.value / 64) = a at *
        generalize UInt8.ofNat (0x80 + c.value % 64) = b at *
        rw [show c = two a b from CodePoint.eq_of_value (by rw [value_two]; omega)]
        exact .two (by omega) (isContinuation_iff.mpr (by omega))
      · have ha := hbyte (0xE0 + c.value / 4096) (by omega)
        have hb := hbyte (0x80 + c.value / 64 % 64) (by omega)
        have hd := hbyte (0x80 + c.value % 64) (by omega)
        generalize UInt8.ofNat (0xE0 + c.value / 4096) = a at *
        generalize UInt8.ofNat (0x80 + c.value / 64 % 64) = b at *
        generalize UInt8.ofNat (0x80 + c.value % 64) = d at *
        rw [show c = three a b d from CodePoint.eq_of_value (by rw [value_three]; omega)]
        exact .three (by omega) (isContinuation_iff.mpr (by omega)) (isContinuation_iff.mpr (by omega))
          (by omega)

/-- The first character is read in one of the forms. -/
theorem form_of_character {start : Nat} {a : UInt8} {bytes rest : List UInt8} {c : CodePoint}
    {h : rest.length ≤ bytes.length} (ha : a ≠ 0)
    (hread : character start bytes a = .ok (c, ⟨rest, h⟩)) :
    ∃ front, Form front c ∧ a :: bytes = front ++ rest := by
  unfold character at hread
  split at hread
  · rename_i hone
    cases hread
    have hpositive : 0 < a.toNat := Nat.pos_of_ne_zero fun hzero => ha (UInt8.toNat_inj.mp hzero)
    exact ⟨_, .one hpositive (UInt8.lt_iff_toNat_lt.mp hone), rfl⟩
  · split at hread
    · cases hread
    · rename_i b bytes
      split at hread
      · split at hread
        · rename_i ha hb
          cases hread
          exact ⟨_, .zero, by rw [ha, hb]; rfl⟩
        · cases hread
      · split at hread
        · cases hread
        · rename_i hb
          rw [Bool.not_eq_true', Bool.not_eq_false] at hb
          split at hread
          · rename_i htwo
            cases hread
            exact ⟨_, .two ⟨UInt8.le_iff_toNat_le.mp htwo.1, UInt8.lt_iff_toNat_lt.mp htwo.2⟩ hb, rfl⟩
          · split at hread
            · split at hread
              · cases hread
              · split at hread
                · cases hread
                · rename_i hthree _ _ _ hc
                  rw [Bool.not_eq_true', Bool.not_eq_false] at hc
                  split at hread
                  · cases hread
                  · rename_i hshort
                    cases hread
                    refine ⟨_, .three ⟨UInt8.le_iff_toNat_le.mp hthree.1,
                      UInt8.lt_iff_toNat_lt.mp hthree.2⟩ hb hc fun ha => ?_, rfl⟩
                    rw [← UInt8.toNat_inj, UInt8.lt_iff_toNat_lt] at hshort
                    exact Nat.not_lt.mp fun hb => hshort ⟨ha, hb⟩
            · cases hread

/-- A character that is written in one of the forms is read. -/
theorem Form.character (start : Nat) {a : UInt8} {bytes front rest : List UInt8} {c : CodePoint}
    (h : Form front c) (hbytes : a :: bytes = front ++ rest) :
    ∃ hrest, character start bytes a = .ok (c, ⟨rest, hrest⟩) := by
  unfold ModifiedUtf8.character
  cases h with
  | zero =>
      cases hbytes
      exact ⟨by simp, rfl⟩
  | one hpositive ha =>
      cases hbytes
      exact ⟨Nat.le_refl _, if_pos (UInt8.lt_iff_toNat_lt.mpr ha)⟩
  | two ha hb =>
      cases hbytes
      have hlarge : ¬a < 0x80 := fun h => absurd (UInt8.lt_iff_toNat_lt.mp h) (by change ¬_ < 0x80; omega)
      have hother : a ≠ 0xC0 := by
        rintro rfl
        exact absurd ha.1 (by decide)
      have hlead : 0xC2 ≤ a ∧ a < 0xE0 := ⟨UInt8.le_iff_toNat_le.mpr ha.1, UInt8.lt_iff_toNat_lt.mpr ha.2⟩
      exact ⟨by simp, by simp [hlarge, hother, hlead, hb]⟩
  | @three _ b d ha hb hc hlong =>
      change _ = _ :: b :: d :: rest at hbytes
      cases hbytes
      have hlarge : ¬a < 0x80 := fun h => absurd (UInt8.lt_iff_toNat_lt.mp h) (by change ¬_ < 0x80; omega)
      have hother : a ≠ 0xC0 := by
        rintro rfl
        exact absurd ha.1 (by decide)
      have hlarger : ¬(0xC2 ≤ a ∧ a < 0xE0) :=
        fun h => absurd (UInt8.lt_iff_toNat_lt.mp h.2) (by change ¬_ < 0xE0; omega)
      have hlead : 0xE0 ≤ a ∧ a < 0xF0 := ⟨UInt8.le_iff_toNat_le.mpr ha.1, UInt8.lt_iff_toNat_lt.mpr ha.2⟩
      have hshort : ¬(a = 0xE0 ∧ b < 0xA0) := by
        rintro ⟨rfl, hb⟩
        exact Nat.not_lt.mpr (hlong rfl) (UInt8.lt_iff_toNat_lt.mp hb)
      exact ⟨by simp; omega, by simp [hlarge, hother, hb, hc, hlarger, hlead, hshort]⟩

/-- The forms in which code points are written. -/
inductive Writes : List UInt8 → CodePoint → Prop where
  | sole {front : List UInt8} {c : CodePoint} (h : Form front c) : Writes front c
  | pair {front next : List UInt8} {c d : CodePoint} (hc : Form front c) (hd : Form next d)
      (hhigh : c.isHighSurrogate = true) (hlow : d.isLowSurrogate = true) :
      Writes (front ++ next) (paired c d)

theorem isHighSurrogate_iff {c : CodePoint} :
    c.isHighSurrogate = true ↔ 0xD800 ≤ c.value ∧ c.value < 0xDC00 := by
  simp [CodePoint.isHighSurrogate]

theorem isLowSurrogate_iff {c : CodePoint} :
    c.isLowSurrogate = true ↔ 0xDC00 ≤ c.value ∧ c.value < 0xE000 := by
  simp [CodePoint.isLowSurrogate]

theorem value_paired {c d : CodePoint} (hhigh : c.isHighSurrogate = true) (hlow : d.isLowSurrogate = true) :
    (paired c d).value = 0x10000 + (c.value - 0xD800) * 0x400 + (d.value - 0xDC00) := by
  have hc := isHighSurrogate_iff.mp hhigh
  have hd := isLowSurrogate_iff.mp hlow
  exact value_point (by omega)

theorem Writes.encodes {front : List UInt8} {c : CodePoint} (h : Writes front c) :
    encodePoint c = front := by
  cases h with
  | sole h => rw [encodePoint, if_pos h.encodes.1, h.encodes.2]
  | @pair front next c d hc hd hhigh hlow =>
      have hcvalue := isHighSurrogate_iff.mp hhigh
      have hdvalue := isLowSurrogate_iff.mp hlow
      have hvalue := value_paired hhigh hlow
      have hfirst : 0xD800 + ((paired c d).value - 0x10000) / 0x400 = c.value := by omega
      have hsecond : 0xDC00 + ((paired c d).value - 0x10000) % 0x400 = d.value := by omega
      rw [encodePoint, if_neg (by omega), hfirst, hsecond, hc.encodes.2, hd.encodes.2]

theorem writes_encodePoint (c : CodePoint) : Writes (encodePoint c) c := by
  by_cases hc : c.value < 0x10000
  · rw [encodePoint, if_pos hc]
    exact .sole (form_encodeUnit hc)
  · have hlimit := c.isLt
    have hfirst := value_point (n := 0xD800 + (c.value - 0x10000) / 0x400) (by omega)
    have hsecond := value_point (n := 0xDC00 + (c.value - 0x10000) % 0x400) (by omega)
    rw [encodePoint, if_neg hc, ← hfirst, ← hsecond]
    generalize point (0xD800 + (c.value - 0x10000) / 0x400) = high at *
    generalize point (0xDC00 + (c.value - 0x10000) % 0x400) = low at *
    have hhigh : high.isHighSurrogate = true := isHighSurrogate_iff.mpr (by omega)
    have hlow : low.isLowSurrogate = true := isLowSurrogate_iff.mpr (by omega)
    have hpaired : paired high low = c := by
      refine CodePoint.eq_of_value ?_
      rw [value_paired hhigh hlow]
      omega
    rw [← hpaired]
    exact .pair (form_encodeUnit (by omega)) (form_encodeUnit (by omega)) hhigh hlow

theorem Form.cons {front : List UInt8} {c : CodePoint} (h : Form front c) (rest : List UInt8) :
    ∃ a bytes, front ++ rest = a :: bytes := by
  cases h <;> exact ⟨_, _, rfl⟩

/-- A text starts with one code point only. -/
theorem Form.unique {front next rest more : List UInt8} {c d : CodePoint} (hc : Form front c)
    (hd : Form next d) (hbytes : front ++ rest = next ++ more) : c = d ∧ rest = more := by
  obtain ⟨a, bytes, hcons⟩ := hc.cons rest
  obtain ⟨_, hfirst⟩ := hc.character 0 hcons.symm
  obtain ⟨_, hsecond⟩ := hd.character 0 (hcons.symm.trans hbytes)
  rw [hfirst] at hsecond
  cases hsecond
  exact ⟨rfl, rfl⟩

/-- Low surrogates are told from the first two bytes that write them. -/
theorem Form.low_iff {front : List UInt8} {c : CodePoint} (h : Form front c) :
    c.isLowSurrogate = true ↔
      ∃ b d, front = [0xED, b, d] ∧ 0xB0 ≤ b ∧ b < 0xC0 ∧ isContinuation d = true := by
  rw [isLowSurrogate_iff]
  constructor
  · intro hvalue
    cases h with
    | zero =>
        rw [value_point (by decide)] at hvalue
        exact absurd hvalue.1 (by decide)
    | one _ ha =>
        rw [value_point (by omega)] at hvalue
        omega
    | two ha hb =>
        rw [value_two] at hvalue
        omega
    | @three a b d ha hb hd hlong =>
        have hbyte := isContinuation_iff.mp hb
        rw [value_three] at hvalue
        have hlead : a = 0xED := UInt8.toNat_inj.mp (by change _ = 0xED; omega)
        refine ⟨b, d, by rw [hlead], UInt8.le_iff_toNat_le.mpr ?_, UInt8.lt_iff_toNat_lt.mpr hbyte.2, hd⟩
        change 0xB0 ≤ _
        omega
  · rintro ⟨b, d, rfl, hb, hb', hd⟩
    cases h with
    | three ha _ _ _ =>
        have hb : 0xB0 ≤ b.toNat := UInt8.le_iff_toNat_le.mp hb
        have hb' : b.toNat < 0xC0 := UInt8.lt_iff_toNat_lt.mp hb'
        rw [value_three]
        change 0xDC00 ≤ 0xED % 16 * 4096 + _ + _ ∧ 0xED % 16 * 4096 + _ + _ < 0xE000
        omega

/-- A high surrogate is joined with a low one that is written behind it, and nothing else is joined. -/
theorem join_cases (c : CodePoint) (bytes : List UInt8) :
    (∃ next d rest h, c.isHighSurrogate = true ∧ d.isLowSurrogate = true ∧ Form next d ∧
      bytes = next ++ rest ∧ join c bytes = (paired c d, ⟨rest, h⟩)) ∨
    ((∀ next d rest, Form next d → bytes = next ++ rest →
        ¬(c.isHighSurrogate = true ∧ d.isLowSurrogate = true)) ∧
      ∃ h, join c bytes = (c, ⟨bytes, h⟩)) := by
  unfold join
  by_cases hhigh : c.isHighSurrogate = true
  · rw [if_pos hhigh]
    split
    · rename_i a b d rest
      split
      · rename_i hlow
        simp only [Bool.and_eq_true, decide_eq_true_eq] at hlow
        obtain ⟨⟨⟨rfl, hb⟩, hb'⟩, hd⟩ := hlow
        have hcontinues : isContinuation b = true := by
          rw [isContinuation, Bool.and_eq_true, decide_eq_true_eq, decide_eq_true_eq]
          exact ⟨UInt8.le_trans (by decide) hb, hb'⟩
        have hform : Form [0xED, b, d] (three 0xED b d) := .three (by decide) hcontinues hd nofun
        have hlow := hform.low_iff.mpr ⟨b, d, rfl, hb, hb', hd⟩
        exact .inl ⟨_, _, rest, by simp; omega, hhigh, hlow, hform, rfl, rfl⟩
      · rename_i hlow
        refine .inr ⟨fun next e more hform hbytes h => hlow ?_, Nat.le_refl _, rfl⟩
        obtain ⟨b', d', rfl, hb, hb', hd⟩ := hform.low_iff.mp h.2
        cases hbytes
        simp only [Bool.and_eq_true, decide_eq_true_eq]
        exact ⟨⟨⟨trivial, hb⟩, hb'⟩, hd⟩
    · rename_i hshort
      refine .inr ⟨fun next e more hform hbytes h => ?_, Nat.le_refl _, rfl⟩
      obtain ⟨b, d, rfl, _⟩ := hform.low_iff.mp h.2
      exact hshort _ b d more hbytes
  · rw [if_neg hhigh]
    exact .inr ⟨fun _ _ _ _ _ h => hhigh h.1, _, rfl⟩

theorem encode_cons (c : CodePoint) (text : Text) : encode (c :: text) = encodePoint c ++ encode text :=
  List.flatMap_cons

/-- Whether a high surrogate stands in front of a low one can be told from what is written. -/
theorem unpaired_cons {c : CodePoint} {text : Text} :
    Text.Unpaired (c :: text) ↔ text.Unpaired ∧
      ∀ next d rest, Form next d → encode text = next ++ rest →
        ¬(c.isHighSurrogate = true ∧ d.isLowSurrogate = true) := by
  cases text with
  | nil =>
      refine ⟨fun _ => ⟨.nil, fun next d rest hform hbytes => ?_⟩, fun _ => .singleton c⟩
      cases hform <;> cases hbytes
  | cons e more =>
      have hstarts : (∀ next d rest, Form next d → encode (e :: more) = next ++ rest →
          ¬(c.isHighSurrogate = true ∧ d.isLowSurrogate = true)) ↔
          ¬(c.isHighSurrogate = true ∧ e.isLowSurrogate = true) := by
        rw [encode_cons]
        generalize hfront : encodePoint e = front
        cases (hfront ▸ writes_encodePoint e : Writes front e) with
        | sole hform =>
            constructor
            · exact fun h => h _ _ _ hform rfl
            · intro h next d rest hnext hbytes
              rwa [(hnext.unique hform hbytes.symm).1]
        | @pair first _ high low hfirst hsecond hhigh hlow =>
            have hvalue := value_paired hhigh hlow
            rw [isHighSurrogate_iff] at hhigh
            refine ⟨fun _ ⟨_, h⟩ => ?_, fun _ next d rest hnext hbytes ⟨_, h⟩ => ?_⟩
            · rw [isLowSurrogate_iff] at h
              omega
            · rw [List.append_assoc] at hbytes
              rw [(hnext.unique hfirst hbytes.symm).1, isLowSurrogate_iff] at h
              omega
      rw [hstarts, Text.Unpaired, List.isChain_cons_cons, and_comm]
      rfl

theorem modified_cons {size : Nat} {read : Text} {a : UInt8} {bytes rest more : List UInt8}
    {c d : CodePoint} {h : rest.length ≤ bytes.length} {h' : more.length ≤ rest.length}
    (hfirst : character (size - (bytes.length + 1)) bytes a = .ok (c, ⟨rest, h⟩))
    (hjoin : join c rest = (d, ⟨more, h'⟩)) :
    modified size read (a :: bytes) = modified size (d :: read) more := by
  rw [modified, hfirst]
  dsimp only
  rw [hjoin]

/-- What is read was written, a pair of surrogates always as one code point. -/
theorem modified_spells {size : Nat} {read text : Text} {bytes : List UInt8} (hbytes : 0 ∉ bytes)
    (hread : modified size read bytes = .ok text) :
    ∃ more, text = read.reverse ++ more ∧ bytes = encode more ∧ more.Unpaired := by
  induction hsize : bytes.length using Nat.strong_induction_on generalizing bytes read with
  | _ n ih =>
      cases bytes with
      | nil =>
          rw [modified] at hread
          cases hread
          exact ⟨[], (List.append_nil _).symm, rfl, .nil⟩
      | cons a bytes =>
          cases hfirst : character (size - (bytes.length + 1)) bytes a with
          | error defect =>
              rw [modified, hfirst] at hread
              cases hread
          | ok found =>
              obtain ⟨c, rest, h⟩ := found
              obtain ⟨front, hform, hsplit⟩ := form_of_character (fun ha => hbytes (ha ▸ .head _)) hfirst
              have hlength : rest.length < n := by
                rw [← hsize, List.length_cons]
                exact Nat.lt_succ_of_le h
              rw [hsplit, List.mem_append, not_or] at hbytes
              rw [hsplit]
              rcases join_cases c rest with
                ⟨next, d, left, h', hhigh, hlow, hnext, rfl, hjoin⟩ | ⟨hsole, _, hjoin⟩
              · rw [modified_cons hfirst hjoin] at hread
                have hleft : 0 ∉ left := fun h => hbytes.2 (List.mem_append_right _ h)
                obtain ⟨more, rfl, rfl, hmore⟩ :=
                  ih left.length (Nat.lt_of_le_of_lt h' hlength) hleft hread rfl
                refine ⟨paired c d :: more, by simp, ?_, unpaired_cons.mpr ⟨hmore, ?_⟩⟩
                · rw [encode_cons, (Writes.pair hform hnext hhigh hlow).encodes, List.append_assoc]
                · intro _ _ _ _ _ hpair
                  have hvalue := value_paired hhigh hlow
                  have hhigh := isHighSurrogate_iff.mp hpair.1
                  omega
              · rw [modified_cons hfirst hjoin] at hread
                obtain ⟨more, rfl, rfl, hmore⟩ := ih rest.length hlength hbytes.2 hread rfl
                refine ⟨c :: more, by simp, ?_, unpaired_cons.mpr ⟨hmore, hsole⟩⟩
                rw [encode_cons, (Writes.sole hform).encodes]

/-- What was written is read. -/
theorem modified_encode (size : Nat) (read : Text) {text : Text} (htext : text.Unpaired) :
    modified size read (encode text) = .ok (read.reverse ++ text) := by
  induction text generalizing read with
  | nil =>
      rw [encode, List.flatMap_nil, modified, List.append_nil]
  | cons c text ih =>
      obtain ⟨hrest, hsole⟩ := unpaired_cons.mp htext
      have hcons : read.reverse ++ c :: text = (c :: read).reverse ++ text := by simp
      rw [encode_cons, hcons, ← ih (c :: read) hrest]
      generalize hfront : encodePoint c = front
      cases (hfront ▸ writes_encodePoint c : Writes front c) with
      | sole hform =>
          obtain ⟨a, bytes, hcons⟩ := hform.cons (encode text)
          obtain ⟨_, hfirst⟩ := hform.character (size - (bytes.length + 1)) hcons.symm
          rw [hcons]
          rcases join_cases c (encode text) with
            ⟨next, d, left, _, hhigh, hlow, hnext, hsplit, _⟩ | ⟨_, _, hjoin⟩
          · exact absurd ⟨hhigh, hlow⟩ (hsole _ _ _ hnext hsplit)
          · exact modified_cons hfirst hjoin
      | @pair front next high low hform hnext hhigh hlow =>
          rw [List.append_assoc]
          obtain ⟨a, bytes, hcons⟩ := hform.cons (next ++ encode text)
          obtain ⟨_, hfirst⟩ := hform.character (size - (bytes.length + 1)) hcons.symm
          rw [hcons]
          rcases join_cases high (next ++ encode text) with
            ⟨_, d, left, _, _, _, hnext', hsplit, hjoin⟩ | ⟨hsole, _⟩
          · obtain ⟨rfl, rfl⟩ := hnext.unique hnext' hsplit
            exact modified_cons hfirst hjoin
          · exact absurd ⟨hhigh, hlow⟩ (hsole _ _ _ hnext rfl)

theorem isSurrogate_iff {c : CodePoint} : c.isSurrogate = true ↔ 0xD800 ≤ c.value ∧ c.value < 0xE000 := by
  simp [CodePoint.isSurrogate]

/-- What is read as ordinary UTF-8 was written as its code points are, and has no surrogates. -/
theorem ordinary_spells {read text : Text} {bytes : List UInt8} (hbytes : 0 ∉ bytes)
    (hread : ordinary? read bytes = some text) :
    ∃ more, text = read.reverse ++ more ∧ bytes = encode more ∧ ∀ c ∈ more, ¬c.isSurrogate = true := by
  have hcons : ∀ {read : Text} {front rest : List UInt8} {c : CodePoint}, Form front c →
      ¬c.isSurrogate = true →
      (∃ more, text = (c :: read).reverse ++ more ∧ rest = encode more ∧
        ∀ d ∈ more, ¬d.isSurrogate = true) →
      ∃ more, text = read.reverse ++ more ∧ front ++ rest = encode more ∧
        ∀ d ∈ more, ¬d.isSurrogate = true := by
    rintro read front rest c hform hc ⟨more, rfl, rfl, hmore⟩
    refine ⟨c :: more, by simp, ?_, List.forall_mem_cons.mpr ⟨hc, hmore⟩⟩
    rw [encode_cons, (Writes.sole hform).encodes]
  fun_induction ordinary? read bytes with
  | case1 read =>
      cases hread
      exact ⟨[], (List.append_nil _).symm, rfl, nofun⟩
  | case2 read a rest hone ih =>
      have ha : a.toNat < 0x80 := UInt8.lt_iff_toNat_lt.mp hone
      have hpositive : 0 < a.toNat := Nat.pos_of_ne_zero fun h =>
        hbytes ((UInt8.toNat_inj.mp h : a = 0) ▸ .head _)
      refine hcons (.one hpositive ha) ?_ (ih (fun h => hbytes (.tail _ h)) hread)
      rw [isSurrogate_iff, value_point (by omega)]
      omega
  | case3 read a _ ha b rest hb ih =>
      refine hcons (.two ⟨UInt8.le_iff_toNat_le.mp ha.1, UInt8.lt_iff_toNat_lt.mp ha.2⟩ hb) ?_
        (ih (fun h => hbytes (.tail _ (.tail _ h))) hread)
      rw [isSurrogate_iff, value_two]
      omega
  | case6 read a _ _ ha b c rest h ih =>
      simp only [Bool.and_eq_true, Bool.or_eq_true, decide_eq_true_eq] at h
      obtain ⟨⟨⟨hb, hc⟩, hlong⟩, hordinary⟩ := h
      have hlong : a.toNat = 0xE0 → 0xA0 ≤ b.toNat := fun h =>
        UInt8.le_iff_toNat_le.mp (hlong.resolve_left fun hne => hne (UInt8.toNat_inj.mp h))
      have hordinary : a.toNat = 0xED → b.toNat < 0xA0 := fun h =>
        UInt8.lt_iff_toNat_lt.mp (hordinary.resolve_left fun hne => hne (UInt8.toNat_inj.mp h))
      have ha : 0xE0 ≤ a.toNat ∧ a.toNat < 0xF0 :=
        ⟨UInt8.le_iff_toNat_le.mp ha.1, UInt8.lt_iff_toNat_lt.mp ha.2⟩
      have hvalue := isContinuation_iff.mp hb
      refine hcons (.three ha hb hc hlong) ?_ (ih (fun h => hbytes (.tail _ (.tail _ (.tail _ h)))) hread)
      rw [isSurrogate_iff, value_three]
      omega
  | case4 | case5 | case7 | case8 | case9 => cases hread

/-- A text without surrogates has no pair of them. -/
theorem unpaired_of_ordinary {text : Text} (h : ∀ c ∈ text, ¬c.isSurrogate = true) : text.Unpaired := by
  induction text with
  | nil => exact .nil
  | cons c rest ih =>
      rw [List.forall_mem_cons] at h
      refine unpaired_cons.mpr ⟨ih h.2, fun _ _ _ _ _ hpair => h.1 ?_⟩
      have hhigh := isHighSurrogate_iff.mp hpair.1
      exact isSurrogate_iff.mpr (by omega)

theorem forbidden_none {bytes : List UInt8} {position : Nat} :
    forbiddenFrom? position bytes = none ↔ ∀ b ∈ bytes, b ≠ 0 ∧ b < 0xF0 := by
  induction bytes generalizing position with
  | nil => exact ⟨fun _ => nofun, fun _ => rfl⟩
  | cons b rest ih =>
      rw [forbiddenFrom?, List.forall_mem_cons, ← @ih (position + 1)]
      split
      · rename_i hforbidden
        refine ⟨nofun, fun h => ?_⟩
        rcases hforbidden with hzero | hlarge
        · exact absurd hzero h.1.1
        · exact absurd h.1.2 (UInt8.not_lt.mpr hlarge)
      · rename_i hallowed
        rw [not_or, UInt8.not_le] at hallowed
        exact ⟨fun h => ⟨hallowed, h⟩, And.right⟩

theorem Form.allowed {front : List UInt8} {c : CodePoint} (h : Form front c) :
    ∀ b ∈ front, b ≠ 0 ∧ b < 0xF0 := by
  have hbyte : ∀ b : UInt8, 0 < b.toNat ∧ b.toNat < 0xF0 → b ≠ 0 ∧ b < 0xF0 := by
    rintro b ⟨hpositive, hb⟩
    refine ⟨?_, UInt8.lt_iff_toNat_lt.mpr hb⟩
    rintro rfl
    exact absurd hpositive (by decide)
  have hcontinuation : ∀ b : UInt8, isContinuation b = true → b ≠ 0 ∧ b < 0xF0 := by
    intro b hb
    have hb := isContinuation_iff.mp hb
    exact hbyte b (by omega)
  cases h with
  | zero => simp
  | one hpositive ha => simpa using hbyte _ ⟨hpositive, by omega⟩
  | two ha hb => simpa using ⟨hbyte _ (by omega), hcontinuation _ hb⟩
  | three ha hb hc _ => simpa using ⟨hbyte _ (by omega), hcontinuation _ hb, hcontinuation _ hc⟩

theorem encode_allowed (text : Text) : ∀ b ∈ encode text, b ≠ 0 ∧ b < 0xF0 := by
  intro b hb
  obtain ⟨c, _, hb⟩ := List.mem_flatMap.mp hb
  generalize hfront : encodePoint c = front at hb
  cases (hfront ▸ writes_encodePoint c : Writes front c) with
  | sole h => exact h.allowed b hb
  | pair h h' _ _ => exact (List.mem_append.mp hb).elim (h.allowed b) (h'.allowed b)

/-- The two readings agree where both apply, since each was written as it was read. -/
theorem modified_of_ordinary {size : Nat} {bytes : List UInt8} {text : Text} (hbytes : 0 ∉ bytes)
    (hread : ordinary? [] bytes = some text) : modified size [] bytes = .ok text := by
  obtain ⟨more, rfl, hmore, hfree⟩ := ordinary_spells hbytes hread
  rw [hmore]
  exact modified_encode size [] (unpaired_of_ordinary hfree)

/-- Ordinary UTF-8 is read like the modified encoding, so that only the forbidden bytes are special. -/
theorem decode_ok_modified {bytes : List UInt8} {text : Text} :
    decode bytes = .ok text ↔
      forbiddenFrom? 0 bytes = none ∧ modified bytes.length [] bytes = .ok text := by
  unfold decode
  cases hallowed : forbiddenFrom? 0 bytes with
  | some defect => simp
  | none =>
      have hbytes : 0 ∉ bytes := fun h => (forbidden_none.mp hallowed 0 h).1 rfl
      cases hordinary : ordinary? [] bytes with
      | some found => simp [modified_of_ordinary hbytes hordinary]
      | none => cases modified bytes.length [] bytes <;> simp [Except.mapError]

/-- A text is read from the bytes that write it and from no others, if none of its pairs of surrogates
could be a single code point. -/
theorem decode_ok {bytes : List UInt8} {text : Text} :
    decode bytes = .ok text ↔ bytes = encode text ∧ text.Unpaired := by
  rw [decode_ok_modified, forbidden_none]
  constructor
  · rintro ⟨hallowed, hread⟩
    obtain ⟨more, rfl, hmore⟩ := modified_spells (fun h => (hallowed 0 h).1 rfl) hread
    exact hmore
  · rintro ⟨rfl, htext⟩
    exact ⟨encode_allowed text, modified_encode _ [] htext⟩

end ModifiedUtf8

end ClassFile
