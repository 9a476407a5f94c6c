import ClassFile.Instruction.Listing

/-! The places of a listing. They stand in the order of their offsets, the first one at the start of the
bytes, and each one right behind the instruction before it. -/

namespace ClassFile

/-- The places that list some bytes, the first of which stands at an offset. -/
inductive Lists (decode : DecodeAt) : Nat → List UInt8 → List ListedPlace → Prop
  | done (pc : Nat) : Lists decode pc [] []
  | fault {pc : Nat} {opcode : UInt8} {operands : List UInt8} {fault : CodeFault}
      (failed : decode (UInt16.ofNat pc) opcode operands = .error fault) :
      Lists decode pc (opcode :: operands) [⟨UInt16.ofNat pc, .error fault⟩]
  | next {pc : Nat} {opcode : UInt8} {operands : List UInt8} {operation : Operation} {used : Nat}
      {rest : List ListedPlace}
      (decoded : decode (UInt16.ofNat pc) opcode operands = .ok (operation, used))
      (behind : Lists decode (pc + 1 + used) (operands.drop used) rest) :
      Lists decode pc (opcode :: operands)
        (⟨UInt16.ofNat pc, .ok ⟨operation, UInt16.ofNat (pc + 1 + used)⟩⟩ :: rest)

theorem lists_listFrom (decode : DecodeAt) (found : List ListedPlace) (pc : Nat)
    (bytes : List UInt8) :
    ∃ places, listFrom decode found pc bytes = found.reverse ++ places ∧
      Lists decode pc bytes places := by
  induction found, pc, bytes using listFrom.induct decode with
  | case1 found pc =>
      refine ⟨[], ?_, .done pc⟩
      rw [listFrom, List.append_nil]
  | case2 found pc opcode operands start fault hfault =>
      refine ⟨[⟨start, .error fault⟩], ?_, .fault hfault⟩
      rw [listFrom, hfault]
      exact List.reverse_cons
  | case3 found pc opcode operands start operation used hdecode next ih =>
      obtain ⟨places, hplaces, hlists⟩ := ih
      refine ⟨⟨start, .ok ⟨operation, UInt16.ofNat next⟩⟩ :: places, ?_, .next hdecode hlists⟩
      rw [List.reverse_cons, List.append_assoc] at hplaces
      rw [listFrom, hdecode]
      exact hplaces

namespace Lists

variable {decode : DecodeAt} {pc : Nat} {bytes : List UInt8} {places : List ListedPlace}

/-- Every place lies within the bytes. -/
theorem bounds (h : Lists decode pc bytes places) (hsize : pc + bytes.length ≤ 0xffff) :
    ∀ place ∈ places, pc ≤ place.pc.toNat ∧ place.pc.toNat < pc + bytes.length := by
  induction h with
  | done pc => simp
  | @fault pc opcode operands fault failed =>
      intro place hplace
      rw [List.mem_singleton] at hplace
      subst hplace
      simp only [List.length_cons, UInt16.toNat_ofNat'] at hsize ⊢
      omega
  | @next pc opcode operands operation used rest decoded behind ih =>
      intro place hplace
      simp only [List.length_cons, List.length_drop] at hsize ih ⊢
      rcases List.mem_cons.mp hplace with rfl | hrest
      · simp only [UInt16.toNat_ofNat']
        omega
      · have hused : used < operands.length := by
          apply Nat.lt_of_not_le
          intro hlong
          rw [List.drop_eq_nil_of_le hlong] at behind
          cases behind
          cases hrest
        have := ih (by omega) place hrest
        omega

theorem sorted (h : Lists decode pc bytes places) (hsize : pc + bytes.length ≤ 0xffff) :
    places.Pairwise fun a b => a.pc < b.pc := by
  induction h with
  | done pc => exact .nil
  | fault failed => exact List.pairwise_singleton _ _
  | @next pc opcode operands operation used rest decoded behind ih =>
      simp only [List.length_cons, List.length_drop] at hsize ih
      by_cases hused : used < operands.length
      · refine .cons (fun place hplace => ?_) (ih (by omega))
        have := behind.bounds (by rw [List.length_drop]; omega) place hplace
        rw [UInt16.lt_iff_toNat_lt]
        simp only [UInt16.toNat_ofNat']
        omega
      · rw [List.drop_eq_nil_of_le (by omega)] at behind
        cases behind
        exact List.pairwise_singleton _ _

/-- The first place is where the bytes start. -/
theorem head (h : Lists decode pc bytes places) (hbytes : bytes ≠ []) :
    places.head?.map ListedPlace.pc = some (UInt16.ofNat pc) := by
  cases h with
  | done => exact absurd rfl hbytes
  | fault failed => rfl
  | next decoded behind => rfl

/-- A place stands right behind the instruction at the place before it. -/
theorem next_pc (h : Lists decode pc bytes places) {place following : ListedPlace}
    (hnext : [place, following] <:+: places) :
    ∃ decoded, place.decoded = .ok decoded ∧ decoded.next = following.pc := by
  induction h with
  | done pc => simp at hnext
  | fault failed =>
      have := hnext.length_le
      simp at this
  | @next pc opcode operands operation used rest decoded behind ih =>
      rcases List.infix_cons_iff.mp hnext with hhere | hrest
      · rw [List.cons_prefix_cons] at hhere
        obtain ⟨rfl, hfollowing⟩ := hhere
        refine ⟨_, rfl, ?_⟩
        obtain ⟨behind', rfl⟩ := hfollowing
        generalize operands.drop used = bytes at behind
        cases behind with
        | fault failed => rfl
        | next decoded behind => rfl
      · exact ih hrest

end Lists

section Listing

variable (pool : Pool) (method : MethodContext) {bytes : List UInt8}

theorem lists_listing (bytes : List UInt8) :
    Lists (fun pc opcode => Site.decode ⟨pc, opcode, UInt16.ofNat bytes.length, pool, method⟩)
      0 bytes (listing pool method bytes) := by
  obtain ⟨places, hplaces, hlists⟩ := lists_listFrom
    (fun pc opcode => Site.decode ⟨pc, opcode, UInt16.ofNat bytes.length, pool, method⟩) [] 0 bytes
  rw [listing, hplaces]
  exact hlists

theorem listing_sorted (hsize : bytes.length ≤ 0xffff) :
    (listing pool method bytes).Pairwise fun a b => a.pc < b.pc :=
  (lists_listing pool method bytes).sorted (by rwa [Nat.zero_add])

theorem listing_head (hbytes : bytes ≠ []) :
    (listing pool method bytes).head?.map ListedPlace.pc = some 0 :=
  (lists_listing pool method bytes).head hbytes

end Listing

end ClassFile
