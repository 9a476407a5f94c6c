import ClassFile.Proofs.Text.ModifiedUtf8

/-! Modified UTF-8 as a code: bytes are read as one text at most, each text in which no high surrogate stands
right in front of a low one is read from the bytes that write it, and nothing else is read. That there are no
longer spellings beside these is told here by the bytes themselves. -/

namespace ClassFile.ModifiedUtf8

/-- What the bytes of two and three byte characters have to be followed by. With any other byte behind
them, `0xC0` and `0xE0` would begin a longer spelling of a code point that takes fewer bytes. -/
def Tight (a b : UInt8) : Prop := (a = 0xC0 → b = 0x80) ∧ (a = 0xE0 → 0xA0 ≤ b)

/-- Bytes that hold no needlessly long character, and don't begin one at their end. -/
structure Closed (bytes : List UInt8) : Prop where
  chain : bytes.IsChain Tight
  last : ∀ b ∈ bytes.getLast?, b < 0xC0
  notLong : 0xC1 ∉ bytes

theorem tight_of_lt {a b : UInt8} (h : a < 0xC0) : Tight a b := by
  constructor <;> (rintro rfl; exact absurd h (by decide))

theorem tight_iff {a b : UInt8} :
    Tight a b ↔ (a.toNat = 0xC0 → b.toNat = 0x80) ∧ (a.toNat = 0xE0 → 0xA0 ≤ b.toNat) := by
  rw [Tight, UInt8.le_iff_toNat_le, ← UInt8.toNat_inj, ← UInt8.toNat_inj, ← UInt8.toNat_inj]
  rfl

namespace Closed

/-- Bytes that begin no character of several bytes. -/
theorem of_lt {bytes : List UInt8} (h : ∀ b ∈ bytes, b < 0xC0) : Closed bytes where
  chain := (List.pairwise_of_forall_mem_list fun a ha _ _ => tight_of_lt (h a ha)).isChain
  last b hb := h b (List.mem_of_getLast? hb)
  notLong hlong := absurd (h _ hlong) (by decide)

/-- A character of several bytes: a first one, which is tight with the next one, and continuation bytes. -/
theorem of_lead {a b : UInt8} {rest : List UInt8} (hshort : a ≠ 0xC1) (htight : Tight a b)
    (hrest : ∀ c ∈ b :: rest, c < 0xC0) : Closed (a :: b :: rest) where
  chain := .cons_cons htight (of_lt hrest).chain
  last c hc := (of_lt hrest).last c (List.getLast?_cons_cons ▸ hc)
  notLong h := (List.mem_cons.mp h).elim (fun h => hshort h.symm) (of_lt hrest).notLong

theorem nil : Closed [] := of_lt nofun

theorem append {front rest : List UInt8} (hfront : Closed front) (hrest : Closed rest) :
    Closed (front ++ rest) where
  chain := List.isChain_append.mpr
    ⟨hfront.chain, hrest.chain, fun a ha _ _ => tight_of_lt (hfront.last a ha)⟩
  last b hb := by
    rw [List.getLast?_append, Option.mem_def, Option.or_eq_some_iff] at hb
    rcases hb with hb | ⟨-, hb⟩
    · exact hrest.last b hb
    · exact hfront.last b hb
  notLong h := (List.mem_append.mp h).elim hfront.notLong hrest.notLong

theorem flatMap {α : Type} {f : α → List UInt8} (h : ∀ a, Closed (f a)) (as : List α) :
    Closed (as.flatMap f) := by
  induction as with
  | nil => exact .nil
  | cons a as ih =>
      rw [List.flatMap_cons]
      exact (h a).append ih

end Closed

theorem Form.closed {front : List UInt8} {c : CodePoint} (h : Form front c) : Closed front := by
  have hshort : ∀ {a : UInt8}, a.toNat ≠ 0xC1 → a ≠ 0xC1 := fun hne h => hne (congrArg UInt8.toNat h)
  have hlast : ∀ {b : UInt8}, isContinuation b = true → b < 0xC0 := fun hb =>
    UInt8.lt_iff_toNat_lt.mpr (isContinuation_iff.mp hb).2
  cases h with
  | zero => exact .of_lead (by decide) ⟨fun _ => rfl, nofun⟩ (List.forall_mem_singleton.mpr (by decide))
  | one hpositive ha =>
      exact .of_lt (List.forall_mem_singleton.mpr (UInt8.lt_iff_toNat_lt.mpr (Nat.lt_trans ha (by decide))))
  | two ha hb =>
      refine .of_lead (hshort (by omega)) (tight_iff.mpr ?_) (List.forall_mem_singleton.mpr (hlast hb))
      constructor <;> omega
  | three ha hb hc hlong =>
      refine .of_lead (hshort (by omega)) (tight_iff.mpr ⟨by omega, hlong⟩) ?_
      exact List.forall_mem_cons.mpr ⟨hlast hb, List.forall_mem_singleton.mpr (hlast hc)⟩

theorem Writes.closed {front : List UInt8} {c : CodePoint} (h : Writes front c) : Closed front := by
  cases h with
  | sole h => exact h.closed
  | pair hc hd _ _ => exact hc.closed.append hd.closed

theorem closed_encode (text : Text) : Closed (encode text) :=
  .flatMap (fun c => (writes_encodePoint c).closed) text

/-- Bytes are read as the text that is written with them, and every text in which no high surrogate stands
right in front of a low one is read back. The reading as ordinary UTF-8 agrees with the other one wherever it
applies, and in what is read there is no raw zero, no byte of a four byte form and no longer spelling than
needed. -/
theorem decode_faithful (bytes : List UInt8) (text : Text) :
    (decode bytes = .ok text → encode text = bytes ∧ text.Unpaired) ∧
    (text.Unpaired → decode (encode text) = .ok text) ∧
    (forbiddenFrom? 0 bytes = none → ordinary? [] bytes = some text →
      modified bytes.length [] bytes = .ok text) ∧
    (decode bytes = .ok text → (∀ b ∈ bytes, b ≠ 0 ∧ b ≠ 0xC1 ∧ b < 0xF0) ∧ bytes.IsChain Tight) := by
  refine ⟨fun h => ?_, fun h => decode_ok.mpr ⟨rfl, h⟩, fun hallowed hread => ?_, fun h => ?_⟩
  · obtain ⟨hbytes, htext⟩ := decode_ok.mp h
    exact ⟨hbytes.symm, htext⟩
  · exact modified_of_ordinary (fun h => (forbidden_none.mp hallowed 0 h).1 rfl) hread
  · obtain ⟨rfl, -⟩ := decode_ok.mp h
    have hclosed := closed_encode text
    refine ⟨fun b hb => ?_, hclosed.chain⟩
    obtain ⟨hzero, hlarge⟩ := encode_allowed text b hb
    exact ⟨hzero, fun hlong => hclosed.notLong (hlong ▸ hb), hlarge⟩

end ClassFile.ModifiedUtf8
