import ClassFile.Proofs.Verification.Accepted

/-! The source lines of offsets. The table is sorted by where its entries start, and then searched for the
last entry at or before an offset. Sorting keeps entries with the same start in their order, so that the
entry that is found can be told from the table as it was read. -/

namespace ClassFile

/-- An entry of a table tells the line of an offset. It starts at or before the offset; those in front of it
that do so as well start no later, and those behind it start earlier. -/
def LineNumber.Governs (lines : List LineNumber) (pc : UInt16) (entry : LineNumber) : Prop :=
  ∃ front behind, lines = front ++ entry :: behind ∧ entry.start ≤ pc ∧
    (∀ other ∈ front, other.start ≤ pc → other.start ≤ entry.start) ∧
    ∀ other ∈ behind, other.start ≤ pc → other.start < entry.start

namespace LineNumber

variable {lines sorted : List LineNumber} {pc : UInt16} {entry other : LineNumber}

/-- The entries with the same start as another one. -/
def sharing (lines : List LineNumber) (entry : LineNumber) : List LineNumber :=
  lines.filter fun other => other.start = entry.start

/-- The governing entry is the last one with the greatest start at or before the offset. -/
theorem governs_iff :
    Governs lines pc entry ↔
      entry.start ≤ pc ∧ (∀ other ∈ lines, other.start ≤ pc → other.start ≤ entry.start) ∧
        (sharing lines entry).getLast? = some entry := by
  constructor
  · rintro ⟨front, behind, rfl, hstart, hfront, hbehind⟩
    have hnone : sharing behind entry = [] := by
      rw [sharing, List.filter_eq_nil_iff]
      intro other hother hsame
      rw [decide_eq_true_eq] at hsame
      exact absurd hsame (UInt16.ne_of_lt (hbehind other hother (hsame ▸ hstart)))
    refine ⟨hstart, ?_, ?_⟩
    · intro other hother hle
      rcases List.mem_append.mp hother with hother | hother
      · exact hfront other hother hle
      · rcases List.mem_cons.mp hother with rfl | hother
        · exact UInt16.le_refl _
        · exact UInt16.le_of_lt (hbehind other hother hle)
    · rw [sharing, List.filter_append, List.filter_cons_of_pos (by simp), ← sharing, ← sharing, hnone,
        List.getLast?_concat]
  · rintro ⟨hstart, hgreatest, hlast⟩
    rw [sharing, List.getLast?_eq_head?_reverse, ← List.filter_reverse, List.head?_filter,
      List.find?_eq_some_iff_append] at hlast
    obtain ⟨_, behind, front, hsplit, hnone⟩ := hlast
    have hlines : lines = front.reverse ++ entry :: behind.reverse := by
      rw [← List.reverse_reverse lines, hsplit]
      simp
    refine ⟨front.reverse, behind.reverse, hlines, hstart, ?_, ?_⟩
    · intro other hother
      exact hgreatest other (hlines ▸ List.mem_append_left _ hother)
    · intro other hother hle
      have hother' : other ∈ lines := hlines ▸ List.mem_append_right _ (List.mem_cons_of_mem _ hother)
      have hne := hnone other (List.mem_reverse.mp hother)
      rw [Bool.not_eq_true', decide_eq_false_iff_not] at hne
      exact UInt16.lt_of_le_of_ne (hgreatest other hother' hle) hne

theorem Governs.start_le (h : Governs lines pc entry) : entry.start ≤ pc := by
  obtain ⟨_, _, _, hstart, _⟩ := h
  exact hstart

theorem Governs.mem (h : Governs lines pc entry) : entry ∈ lines := by
  obtain ⟨_, _, rfl, _⟩ := h
  exact List.mem_append_right _ List.mem_cons_self

theorem Governs.unique (h : Governs lines pc entry) (h' : Governs lines pc other) : entry = other := by
  obtain ⟨hstart, hgreatest, hlast⟩ := governs_iff.mp h
  obtain ⟨hstart', hgreatest', hlast'⟩ := governs_iff.mp h'
  have hmem {e : LineNumber} (he : (sharing lines e).getLast? = some e) : e ∈ lines :=
    (List.mem_filter.mp (List.mem_of_getLast? he)).1
  have hsame : entry.start = other.start :=
    UInt16.le_antisymm (hgreatest' entry (hmem hlast) hstart) (hgreatest other (hmem hlast') hstart')
  have hshared : sharing lines entry = sharing lines other := by rw [sharing, sharing, hsame]
  rw [hshared, hlast'] at hlast
  exact (Option.some.inj hlast).symm

/-- What governs an offset does not depend on the order of entries with different starts. -/
theorem governs_congr (hperm : lines.Perm sorted)
    (hstable : ∀ entry, sharing lines entry = sharing sorted entry) :
    Governs lines pc entry ↔ Governs sorted pc entry := by
  rw [governs_iff, governs_iff, hstable]
  simp only [hperm.mem_iff]

end LineNumber

namespace LineIndex

open List LineNumber

variable {lines : List LineNumber} {index : LineIndex} {pc : UInt16}

/-- The order in which an index keeps its entries. -/
def byStart (a b : LineNumber) : Bool := a.start ≤ b.start

theorem byStart_trans (a b c : LineNumber) (hab : byStart a b = true) (hbc : byStart b c = true) :
    byStart a c = true := by
  simp only [byStart, decide_eq_true_eq] at *
  exact UInt16.le_trans hab hbc

theorem byStart_total (a b : LineNumber) : (byStart a b || byStart b a) = true := by
  simp only [byStart, Bool.or_eq_true, decide_eq_true_eq]
  exact UInt16.le_total _ _

theorem entries_ofLines (lines : List LineNumber) :
    (ofLines lines).entries = (lines.mergeSort byStart).toArray := rfl

/-- Sorting is stable: entries with the same start keep their order. -/
theorem sharing_mergeSort (lines : List LineNumber) (entry : LineNumber) :
    sharing lines entry = sharing (lines.mergeSort byStart) entry := by
  have hordered : (sharing lines entry).Pairwise fun a b => byStart a b = true := by
    rw [sharing, List.pairwise_filter]
    refine List.pairwise_of_forall fun a b ha hb => ?_
    rw [decide_eq_true_eq] at ha hb
    rw [byStart, decide_eq_true_eq, ha, hb]
    exact UInt16.le_refl _
  have hsublist : sharing lines entry <+ sharing (lines.mergeSort byStart) entry := by
    have hkept := List.sublist_mergeSort byStart_trans byStart_total hordered List.filter_sublist
    simpa [sharing] using hkept.filter fun other => decide (other.start = entry.start)
  exact hsublist.eq_of_length ((List.mergeSort_perm lines byStart).filter _).length_eq.symm

theorem governs_ofLines {entry : LineNumber} :
    Governs (ofLines lines).entries.toList pc entry ↔ Governs lines pc entry :=
  (governs_congr (List.mergeSort_perm lines byStart).symm (sharing_mergeSort lines)).symm

/-- The entries stand in the order of their starts. -/
def Ordered (index : LineIndex) : Prop := index.entries.toList.Pairwise fun a b => a.start ≤ b.start

theorem ordered_ofLines (lines : List LineNumber) : (ofLines lines).Ordered := by
  refine (List.pairwise_mergeSort byStart_trans byStart_total lines).imp fun hab => ?_
  rwa [byStart, decide_eq_true_eq] at hab

theorem split_at {place : Nat} {entry : LineNumber} (hentry : index.entries[place]? = some entry) :
    index.entries.toList =
      index.entries.toList.take place ++ entry :: index.entries.toList.drop (place + 1) := by
  rw [← Array.getElem?_toList, List.getElem?_eq_some_iff] at hentry
  obtain ⟨hplace, rfl⟩ := hentry
  rw [← List.drop_eq_getElem_cons hplace, List.take_append_drop]

/-- Up to an entry the entries start no later, and from it on no earlier. -/
theorem Ordered.around (hordered : index.Ordered) {place : Nat} {entry : LineNumber}
    (hentry : index.entries[place]? = some entry) :
    (∀ other ∈ index.entries.toList.take (place + 1), other.start ≤ entry.start) ∧
      ∀ other ∈ index.entries.toList.drop place, entry.start ≤ other.start := by
  have hpairs := hordered
  rw [Ordered, split_at hentry, List.pairwise_append, List.pairwise_cons] at hpairs
  rw [← Array.getElem?_toList] at hentry
  constructor
  · intro other hother
    rw [List.take_add_one, hentry] at hother
    rcases List.mem_append.mp hother with hother | hother
    · exact hpairs.2.2 other hother entry List.mem_cons_self
    · rw [List.mem_singleton.mp hother]
      exact UInt16.le_refl _
  · intro other hother
    obtain ⟨hplace, rfl⟩ := List.getElem?_eq_some_iff.mp hentry
    rw [List.drop_eq_getElem_cons hplace] at hother
    rcases List.mem_cons.mp hother with rfl | hother
    · exact UInt16.le_refl _
    · exact hpairs.2.1.1 other hother

/-- The search keeps what it knows: what lies before `low` starts at or before the offset, and what lies from
`high` on starts behind it. -/
theorem firstBehind_splits (hordered : index.Ordered) {low high : Nat} (hle : low ≤ high)
    (hbefore : ∀ entry ∈ index.entries.toList.take low, entry.start ≤ pc)
    (hbehind : ∀ entry ∈ index.entries.toList.drop high, pc < entry.start) :
    index.firstBehind pc low high ≤ high ∧
      (∀ entry ∈ index.entries.toList.take (index.firstBehind pc low high), entry.start ≤ pc) ∧
      ∀ entry ∈ index.entries.toList.drop (index.firstBehind pc low high), pc < entry.start := by
  fun_induction index.firstBehind pc low high with
  | case1 low high hlt middle hnone ih =>
    -- a place without an entry lies behind all of them
    have hsize : index.entries.toList.length ≤ middle := by
      rwa [← Array.getElem?_toList, List.getElem?_eq_none_iff] at hnone
    obtain ⟨hfound, hrest⟩ := ih (by omega) hbefore (by simp [List.drop_eq_nil_of_le hsize])
    exact ⟨by omega, hrest⟩
  | case2 low high hlt middle entry hentry hstart ih =>
    obtain ⟨hfront, _⟩ := hordered.around hentry
    exact ih (by omega) (fun other hother => UInt16.le_trans (hfront other hother) hstart) hbehind
  | case3 low high hlt middle entry hentry hstart ih =>
    obtain ⟨_, hback⟩ := hordered.around hentry
    have hstart : pc < entry.start := UInt16.not_le.mp hstart
    obtain ⟨hfound, hrest⟩ :=
      ih (by omega) hbefore fun other hother => UInt16.lt_of_lt_of_le hstart (hback other hother)
    exact ⟨by omega, hrest⟩
  | case4 low high hlt =>
    obtain rfl : low = high := by omega
    exact ⟨Nat.le_refl _, hbefore, hbehind⟩

/-- The entry that the search ends at governs the offset, and without one all entries start behind it. -/
theorem Ordered.lineAt? (hordered : index.Ordered) (pc : UInt16) :
    (index.lineAt? pc = none ∧ ∀ entry ∈ index.entries.toList, pc < entry.start) ∨
      ∃ entry, index.lineAt? pc = some entry.line ∧ Governs index.entries.toList pc entry := by
  have hrest : ∀ entry ∈ index.entries.toList.drop index.entries.size, pc < entry.start := by
    rw [← Array.length_toList, List.drop_length]
    exact nofun
  obtain ⟨hle, hbefore, hbehind⟩ := firstBehind_splits hordered (Nat.zero_le _) nofun hrest
  unfold LineIndex.lineAt?
  split
  · rename_i hzero
    rw [hzero, List.drop_zero] at hbehind
    exact .inl ⟨rfl, hbehind⟩
  · rename_i last hlast
    rw [hlast] at hle hbefore hbehind
    have hentry : index.entries[last]? = some index.entries[last] := Array.getElem?_eq_getElem hle
    obtain ⟨hfront, _⟩ := hordered.around hentry
    have hmem : index.entries[last] ∈ index.entries.toList.take (last + 1) := by
      rw [List.take_add_one, Array.getElem?_toList, hentry]
      exact List.mem_append_right _ List.mem_cons_self
    refine .inr ⟨index.entries[last], by rw [hentry, Option.map_some], _, _, split_at hentry,
      hbefore _ hmem, ?_, ?_⟩
    · intro other hother _
      rw [List.take_add_one] at hfront
      exact hfront other (List.mem_append_left _ hother)
    · intro other hother hstart
      exact absurd hstart (UInt16.not_le.mpr (hbehind other hother))

theorem lineAt?_ofLines (lines : List LineNumber) (pc : UInt16) :
    ((ofLines lines).lineAt? pc = none ∧ ∀ entry ∈ lines, pc < entry.start) ∨
      ∃ entry, (ofLines lines).lineAt? pc = some entry.line ∧ Governs lines pc entry := by
  rcases (ordered_ofLines lines).lineAt? pc with ⟨hnone, hbehind⟩ | ⟨entry, hsome, hgoverns⟩
  · refine .inl ⟨hnone, fun entry hentry => hbehind entry ?_⟩
    rw [entries_ofLines]
    exact (List.mergeSort_perm lines byStart).mem_iff.mpr hentry
  · exact .inr ⟨entry, hsome, governs_ofLines.mp hgoverns⟩

end LineIndex

namespace Pass

variable {p : Premises} {pass next final : Pass} {place : ListedPlace}

/-- The steps so far have the lines of their offsets. -/
def Lined (p : Premises) (pass : Pass) : Prop := ∀ s ∈ pass.steps, s.verified.line = p.lines.lineAt? s.pc

theorem Lined.start (h : Pass.start p = .ok pass) : Lined p pass := by
  unfold Pass.start at h
  obtain ⟨locals, _, h⟩ := bind_ok.mp h
  cases h
  exact fun _ hs => absurd hs List.not_mem_nil

theorem Lined.step (h : Lined p pass) (hstep : pass.step p place = .ok next) : Lined p next := by
  unfold Pass.step at hstep
  obtain ⟨before, _, hstep⟩ := bind_ok.mp hstep
  obtain ⟨decoded, _, hstep⟩ := bind_ok.mp hstep
  obtain ⟨performed, _, hstep⟩ := bind_ok.mp hstep
  obtain ⟨branched, _, hstep⟩ := bind_ok.mp hstep
  obtain ⟨machine, _, hstep⟩ := bind_ok.mp hstep
  cases hstep
  exact List.forall_mem_cons.mpr ⟨rfl, h⟩

theorem Lined.run {places : List ListedPlace} (h : Lined p pass) (hrun : run p pass places = .ok final) :
    Lined p final := by
  induction places generalizing pass with
  | nil =>
      cases hrun
      exact h
  | cons place rest ih =>
      obtain ⟨next, hstep, hrest⟩ := bind_ok.mp hrun
      unfold atOffset at hstep
      split at hstep
      · rename_i hnext
        cases hstep
        exact ih (h.step hnext) hrest
      · cases hstep

end Pass

section Reading

variable {pool : Pool} {method : MethodContext} {keepBytes : Bool} {source rest : Cursor} {code : Code}
  {raw : RawCode} {steps : List PassStep}

theorem Accepted.lines (h : Accepted pool method source rest code raw steps) :
    ∀ v ∈ code.instructions, v.line = (LineIndex.ofLines code.lineNumbers).lineAt? v.pc := by
  have hverified := h.verified
  unfold RawCode.verify Premises.verify at hverified
  obtain ⟨start, hstart, hverified⟩ := bind_ok.mp hverified
  obtain ⟨final, hrun, hfinish⟩ := bind_ok.mp hverified
  obtain ⟨_, hsteps⟩ := Pass.finish_ok hfinish
  unfold Pass.atOffset at hstart
  split at hstart
  · rename_i hbegins
    cases hstart
    intro v hv
    rw [h.instructions, hsteps] at hv
    obtain ⟨s, hs, rfl⟩ := List.mem_map.mp hv
    obtain ⟨_, rfl⟩ := h.result
    exact (Pass.Lined.start hbegins).run hrun s (List.mem_reverse.mp hs)
  · cases hstart

/-- The lines of a table are found as the table says: an offset that all entries start behind is on no line,
and any other one is on the line of the entry that governs it. Code that is read finds the lines of its
instructions this way, in the table of all its entries. -/
theorem LineIndex.lineAt?_governed :
    (∀ lines pc, (ofLines lines).lineAt? pc = none ↔ ∀ entry ∈ lines, pc < entry.start) ∧
      (∀ lines pc line, (ofLines lines).lineAt? pc = some line ↔
        ∃ entry, LineNumber.Governs lines pc entry ∧ entry.line = line) ∧
      ∀ pool method keepBytes source code rest, Code.read pool method keepBytes source = .ok code rest →
        ∀ v ∈ code.instructions, v.line = (ofLines code.lineNumbers).lineAt? v.pc := by
  refine ⟨?_, ?_, ?_⟩
  · intro lines pc
    rcases lineAt?_ofLines lines pc with ⟨hnone, hbehind⟩ | ⟨entry, hsome, hgoverns⟩
    · exact ⟨fun _ => hbehind, fun _ => hnone⟩
    · rw [hsome]
      refine ⟨nofun, fun hbehind => absurd hgoverns.start_le (UInt16.not_le.mpr (hbehind entry hgoverns.mem))⟩
  · intro lines pc line
    rcases lineAt?_ofLines lines pc with ⟨hnone, hbehind⟩ | ⟨entry, hsome, hgoverns⟩
    · rw [hnone]
      refine ⟨nofun, ?_⟩
      rintro ⟨entry, hgoverns, _⟩
      exact absurd hgoverns.start_le (UInt16.not_le.mpr (hbehind entry hgoverns.mem))
    · rw [hsome, Option.some.injEq]
      constructor
      · exact fun hline => ⟨entry, hgoverns, hline⟩
      · rintro ⟨other, hother, rfl⟩
        rw [hgoverns.unique hother]
  · intro pool method keepBytes source code rest hread
    obtain ⟨raw, steps, haccepted⟩ := Code.read_ok hread
    exact haccepted.lines

end Reading

/-- A pool with the name of the attribute that holds line numbers. -/
def linePool : Pool := ⟨#[.vacant, .entry (.utf8 (.ofString "LineNumberTable"))]⟩

/-- Code of three instructions with two tables of lines. The first one is not in the order of its starts,
and the second one has another entry for an offset of the first. -/
def twoLineTables : Cursor :=
  .ofBytes [0, 1, 0, 0, 0, 0, 0, 3, 0x03, 0x57, 0xb1, 0, 0, 0, 2,
    0, 1, 0, 0, 0, 10, 0, 2, 0, 1, 0, 11, 0, 0, 0, 10,
    0, 1, 0, 0, 0, 6, 0, 1, 0, 1, 0, 12]

theorem twoLineTables_lines : ∃ code rest,
    Code.read linePool sampleMethod false twoLineTables = .ok code rest ∧
      code.instructions.map VerifiedInstruction.line = [some 10, some 12, some 12] := by
  obtain ⟨code, rest, hread, htable, hpcs⟩ : ∃ code rest,
      Code.read linePool sampleMethod false twoLineTables = .ok code rest ∧
        code.lineNumbers = [⟨1, 11⟩, ⟨0, 10⟩, ⟨1, 12⟩] ∧
        code.instructions.map VerifiedInstruction.pc = [0, 1, 2] :=
    ok_of_success?
      (P := fun code : Code => code.lineNumbers = [⟨1, 11⟩, ⟨0, 10⟩, ⟨1, 12⟩] ∧
        code.instructions.map VerifiedInstruction.pc = [0, 1, 2])
      (by decide +kernel)
  obtain ⟨_, hgoverned, hlines⟩ := LineIndex.lineAt?_governed
  have hfirst : (LineIndex.ofLines code.lineNumbers).lineAt? 0 = some 10 :=
    (hgoverned _ _ _).mpr ⟨⟨0, 10⟩, ⟨[⟨1, 11⟩], [⟨1, 12⟩], htable, by decide⟩, rfl⟩
  have hfront : ∀ other ∈ [(⟨1, 11⟩ : LineNumber), ⟨0, 10⟩], other.start ≤ 1 := by decide
  have hlater : ∀ pc : UInt16, 1 ≤ pc → (LineIndex.ofLines code.lineNumbers).lineAt? pc = some 12 :=
    fun pc hpc => (hgoverned _ _ _).mpr
      ⟨⟨1, 12⟩, ⟨[⟨1, 11⟩, ⟨0, 10⟩], [], htable, hpc, fun other hother _ => hfront other hother, nofun⟩, rfl⟩
  refine ⟨code, rest, hread, ?_⟩
  rw [List.map_congr_left (hlines _ _ _ _ _ _ hread), ← Function.comp_def, ← List.map_map, hpcs,
    List.map_cons, List.map_cons, List.map_cons, List.map_nil, hfirst, hlater 1 (by decide), hlater 2 (by decide)]

end ClassFile
