import ClassFile.Proofs.Pool.Encoding
import ClassFile.Proofs.Pool.Validated

/-! What the pool of an accepted class file can hand out. Entries of some kinds are read only from a certain
version on, validation refuses handles that the version does not allow, and in the end every computed constant
is found to have its bootstrap method. So whatever is resolved obeys these rules, wherever it is used. -/

namespace ClassFile

/-- A computed constant refers to one of a number of bootstrap methods, in a version that has such
constants. -/
structure DynamicRef.LawfulIn (version : Version) (bootstraps : Nat) (ref : DynamicRef) : Prop where
  bootstrap : ref.bootstrap.toNat < bootstraps
  version : 55 ≤ version.major

/-- A handle to a method names an instance initialization method exactly if it creates instances. It refers to
a method of an interface always if it dispatches on one, and otherwise only if it does not dispatch and the
version allows it. -/
def MethodHandle.LawfulIn (version : Version) (handle : MethodHandle) : Prop :=
  ∀ ref, handle.member = .method ref →
    (ref.name.isInit = true ↔ handle.kind = .newInvokeSpecial) ∧
    (handle.kind = .invokeInterface → ref.ofInterface = true) ∧
    (ref.ofInterface = true → handle.kind = .invokeInterface ∨
      (handle.kind = .invokeStatic ∨ handle.kind = .invokeSpecial) ∧ 52 ≤ version.major)

/-- The rules for a constant, wherever it is used. -/
def Loadable.LawfulIn (version : Version) (bootstraps : Nat) : Loadable → Prop
  | .methodHandle handle => handle.LawfulIn version
  | .dynamic ref => ref.LawfulIn version bootstraps
  | _ => True

/-- No reference names a class initialization method, and those to instance initialization methods return
nothing. -/
structure MethodRef.Regular (ref : MethodRef) : Prop where
  notClinit : ref.name.isClinit = false
  initReturns : ref.name.isInit = true → ref.descriptor.returnType.isVoid = true

namespace Pool

variable {pool : Pool} {version : Version} {index owner member : UInt16} {ref : MethodRef}

section Methods

theorem methodOf_ok {ofInterface : Bool} (h : pool.methodOf owner member ofInterface = .ok ref) :
    ref.Regular ∧ ref.ofInterface = ofInterface := by
  obtain ⟨_, _, h⟩ := bind_ok.mp h
  obtain ⟨pair, _, h⟩ := bind_ok.mp h
  obtain ⟨name, _, h⟩ := bind_ok.mp h
  obtain ⟨descriptor, _, h⟩ := bind_ok.mp h
  split at h
  · cases h
  rename_i hclinit
  split at h
  · cases h
  rename_i hinit
  cases h
  refine ⟨⟨by simpa using hclinit, fun hname => ?_⟩, rfl⟩
  simpa [show name.isInit = true from hname] using hinit

theorem classMethodAt_ok (h : pool.classMethodAt index = .ok ref) : ref.Regular ∧ ref.ofInterface = false := by
  obtain ⟨entry, _, h⟩ := bind_ok.mp h
  split at h
  · exact methodOf_ok h
  · cases h

theorem interfaceMethodAt_ok (h : pool.interfaceMethodAt index = .ok ref) :
    ref.Regular ∧ ref.ofInterface = true := by
  obtain ⟨entry, _, h⟩ := bind_ok.mp h
  split at h
  · exact methodOf_ok h
  · cases h

theorem methodAt_ok (h : pool.methodAt index = .ok ref) : ref.Regular := by
  obtain ⟨entry, _, h⟩ := bind_ok.mp h
  split at h
  · exact (methodOf_ok h).1
  · exact (methodOf_ok h).1
  · cases h

/-- What kind of methods a handle of a kind may refer to. -/
theorem memberAt_ok {kind : HandleKind} (h : pool.memberAt kind index = .ok (.method ref)) :
    (kind = .invokeInterface → ref.ofInterface = true) ∧
      (ref.ofInterface = true → kind = .invokeInterface ∨ kind = .invokeStatic ∨ kind = .invokeSpecial) := by
  have hmethod : ∀ {result : Except Located MethodRef},
      MemberRef.method <$> result = .ok (.method ref) → result = .ok ref := by
    intro result h
    cases result with
    | error located => cases h
    | ok found =>
        cases h
        rfl
  cases kind with
  | getField | getStatic | putField | putStatic =>
      unfold memberAt at h
      cases hfield : pool.fieldAt index <;> rw [hfield] at h <;> cases h
  | invokeVirtual | newInvokeSpecial =>
      rw [(classMethodAt_ok (hmethod h)).2]
      exact ⟨nofun, nofun⟩
  | invokeStatic => exact ⟨nofun, fun _ => .inr (.inl rfl)⟩
  | invokeSpecial => exact ⟨nofun, fun _ => .inr (.inr rfl)⟩
  | invokeInterface => exact ⟨fun _ => (interfaceMethodAt_ok (hmethod h)).2, fun _ => .inl rfl⟩

theorem checkHandle_ok {kind : HandleKind} (h : checkHandle index kind (.method ref) = .ok ()) :
    ref.name.isInit = true ↔ kind = .newInvokeSpecial := by
  unfold checkHandle at h
  dsimp only at h
  split at h
  · rename_i hkind
    split at h
    · rename_i hinit
      exact ⟨fun _ => hkind, fun _ => hinit⟩
    · cases h
  · rename_i hkind
    split at h
    · cases h
    · rename_i hinit
      exact ⟨fun h => absurd h hinit, fun h => absurd h hkind⟩

theorem checkInterfaceHandle_ok {reference : UInt16} {handle : MethodHandle}
    (h : checkInterfaceHandle version reference handle = .ok ()) (hmember : handle.member = .method ref)
    (howner : ref.ofInterface = true) (hkind : handle.kind = .invokeStatic ∨ handle.kind = .invokeSpecial) :
    52 ≤ version.major := by
  unfold checkInterfaceHandle at h
  rw [hmember] at h
  dsimp only at h
  split at h
  · cases h
  · rename_i hallowed
    by_contra hold
    refine hallowed ?_
    have hold : version.atLeast interfaceHandleMajor = false := decide_eq_false hold
    rcases hkind with hkind | hkind <;> simp [howner, hold, hkind]

theorem methodHandleAt_ok {handle : MethodHandle} (h : pool.methodHandleAt index = .ok handle) :
    ∃ number reference, pool.entry index = .ok (.methodHandle number reference) ∧
      pool.memberAt handle.kind reference = .ok handle.member ∧
      checkHandle index handle.kind handle.member = .ok () := by
  obtain ⟨entry, hentry, h⟩ := bind_ok.mp h
  split at h
  · split at h
    · cases h
    · obtain ⟨member, hmember, h⟩ := bind_ok.mp h
      obtain ⟨_, hcheck, h⟩ := bind_ok.mp h
      cases h
      exact ⟨_, _, hentry, hmember, hcheck⟩
  · cases h

end Methods

/-- The pool of a class file that is accepted, with a number of bootstrap methods. -/
structure Approved (version : Version) (bootstraps : Nat) (pool : Pool) : Prop where
  writable : pool.Writable version
  validated : pool.validate version = .ok ()
  bootstrapCount : bootstraps < 65536
  bootstraps : pool.checkBootstrap (UInt16.ofNat bootstraps) = .ok ()

theorem mem_entries {entry : Entry} (h : pool.entry index = .ok entry) : (index, entry) ∈ pool.entries := by
  obtain ⟨hindex, hslot⟩ := entry_ok.mp h
  exact List.mem_filterMap.mpr ⟨_, List.mem_of_mem_tail (mem_indexed hindex hslot), rfl⟩

namespace Approved

variable {bootstraps : Nat}

/-- Entries stand only in versions that have them. -/
theorem introduced (h : pool.Approved version bootstraps) {entry : Entry}
    (hentry : pool.entry index = .ok entry) : entry.tag.introducedIn.major ≤ version.major := by
  obtain ⟨_, hslot⟩ := entry_ok.mp hentry
  have hallowed := (h.writable.entries _ _ hslot).1
  by_contra hold
  refine hallowed ?_
  have hmajor : Ord.compare version.major entry.tag.introducedIn.major = .lt :=
    if_pos (UInt16.not_le.mp hold)
  rw [Version.compare, hmajor]
  rfl

theorem dynamicAt (h : pool.Approved version bootstraps) {ref : DynamicRef}
    (href : pool.dynamicAt index = .ok ref) : ref.LawfulIn version bootstraps := by
  obtain ⟨entry, hentry, href⟩ := bind_ok.mp href
  split at href
  · rename_i bootstrap member
    obtain ⟨_, _, href⟩ := bind_ok.mp href
    obtain ⟨_, _, href⟩ := bind_ok.mp href
    obtain ⟨_, _, href⟩ := bind_ok.mp href
    cases href
    refine ⟨?_, h.introduced hentry⟩
    have hbootstraps := h.bootstraps
    unfold checkBootstrap at hbootstraps
    dsimp only at hbootstraps
    split at hbootstraps
    · rename_i hnone
      have hplaced := List.findSome?_eq_none_iff.mp hnone _ (mem_entries hentry)
      dsimp only at hplaced
      split at hplaced
      · cases hplaced
      · rename_i hless
        rw [UInt16.not_le, UInt16.lt_iff_toNat_lt, UInt16.toNat_ofNat_of_lt' h.bootstrapCount] at hless
        exact hless
    · cases hbootstraps
  · cases href

theorem methodHandleAt (h : pool.Approved version bootstraps) {handle : MethodHandle}
    (hhandle : pool.methodHandleAt index = .ok handle) : handle.LawfulIn version := by
  obtain ⟨number, reference, hentry, hmember, hinit⟩ := methodHandleAt_ok hhandle
  have hcheck := checkEntry_of_validate h.validated hentry
  obtain ⟨found, hfound, hcheck⟩ := bind_ok.mp hcheck
  obtain rfl := Except.ok.inj (hhandle.symm.trans hfound)
  intro ref href
  rw [href] at hmember hinit
  obtain ⟨halways, honly⟩ := memberAt_ok hmember
  refine ⟨checkHandle_ok hinit, halways, fun howner => ?_⟩
  rcases honly howner with hkind | hkind
  · exact .inl hkind
  · exact .inr ⟨hkind, checkInterfaceHandle_ok hcheck href howner hkind⟩

theorem loadableAt (h : pool.Approved version bootstraps) {value : Loadable}
    (hvalue : pool.loadableAt index = .ok value) : value.LawfulIn version bootstraps := by
  have hmap : ∀ {α : Type} {result : Except Located α} {f : α → Loadable}, f <$> result = .ok value →
      ∃ a, result = .ok a ∧ f a = value := by
    intro α result f hresult
    cases result with
    | error located => cases hresult
    | ok a => exact ⟨a, rfl, Except.ok.inj hresult⟩
  obtain ⟨entry, hentry, hvalue⟩ := bind_ok.mp hvalue
  split at hvalue
  case h_7 =>
    obtain ⟨handle, hhandle, rfl⟩ := hmap hvalue
    exact h.methodHandleAt hhandle
  case h_9 =>
    obtain ⟨ref, href, rfl⟩ := hmap hvalue
    exact h.dynamicAt href
  case h_10 => cases hvalue
  case h_5 | h_6 | h_8 =>
    obtain ⟨_, _, rfl⟩ := hmap hvalue
    trivial
  all_goals
    cases hvalue
    trivial

end Approved

end Pool

end ClassFile
