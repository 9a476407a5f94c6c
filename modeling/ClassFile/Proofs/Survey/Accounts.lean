import Mathlib.Algebra.GroupWithZero.Nat
import Mathlib.Data.List.Dedup
import ClassFile.Proofs.Survey.Path
import ClassFile.Proofs.Survey.Workers
import ClassFile.Survey.Run

/-! What a report of a survey accounts for. Each file that was looked at was refused, or its type is kept, or
another file with a path that is not greater is kept for the same type. -/

namespace ClassFile.Survey

/-- The type that a file is verified to declare, with the path of the file. -/
def Examined.verified? (file : Examined) : Option Kept :=
  file.result.toOption.map fun decl => ⟨file.path, decl⟩

/-- The files that were verified, with the types that they declare. -/
def verified (files : List Examined) : List Kept := files.filterMap Examined.verified?

/-- The files that were refused. -/
def refused (files : List Examined) : List Examined := files.filter fun file => !file.result.isOk

def Kept.name (kept : Kept) : ClassName := kept.decl.name

section Files

variable {file : Examined} {decl : TypeDecl} {error : Error}

theorem verified_concat_ok (files : List Examined) (h : file.result = .ok decl) :
    verified (files ++ [file]) = verified files ++ [⟨file.path, decl⟩] := by
  simp [verified, Examined.verified?, h, Except.toOption]

theorem verified_concat_error (files : List Examined) (h : file.result = .error error) :
    verified (files ++ [file]) = verified files := by
  simp [verified, Examined.verified?, h, Except.toOption]

theorem refused_concat_ok (files : List Examined) (h : file.result = .ok decl) :
    refused (files ++ [file]) = refused files := by
  simp [refused, h, Except.isOk, Except.toBool]

theorem refused_concat_error (files : List Examined) (h : file.result = .error error) :
    refused (files ++ [file]) = refused files ++ [file] := by
  simp [refused, h, Except.isOk, Except.toBool]

theorem mem_verified {files : List Examined} {k : Kept} :
    k ∈ verified files ↔ ∃ file ∈ files, file.path = k.path ∧ file.result = .ok k.decl := by
  have hverified (file : Examined) :
      file.verified? = some k ↔ file.path = k.path ∧ file.result = .ok k.decl := by
    cases k
    cases h : file.result <;> simp [Examined.verified?, h, Except.toOption]
  simp only [verified, List.mem_filterMap, hverified]

theorem length_verified_add_refused (files : List Examined) :
    (verified files).length + (refused files).length = files.length := by
  induction files using List.reverseRecOn with
  | nil => rfl
  | append_singleton files file ih =>
      cases h : file.result with
      | error error =>
          rw [verified_concat_error files h, refused_concat_error files h, List.length_append,
            List.length_append, ← ih, Nat.add_assoc]
      | ok decl =>
          rw [verified_concat_ok files h, refused_concat_ok files h, List.length_append,
            List.length_append, ← ih, Nat.add_right_comm]
          rfl

end Files

/-- A type is put behind those that are kept, or of two files that declare it one is kept in the place of
the old one and the other is discarded. -/
theorem place_cases {new : Kept} {kept after : List Kept} {repeated : Option String}
    (h : place new kept = (after, repeated)) :
    (repeated = none ∧ after = kept ++ [new] ∧ ∀ k ∈ kept, k.name ≠ new.name) ∨
    ∃ front old back better worse, kept = front ++ old :: back ∧ old.name = new.name ∧
      (better = new ∧ worse = old ∨ better = old ∧ worse = new) ∧
      (comparePaths better.path worse.path).isLE ∧ after = front ++ better :: back ∧
      repeated = some worse.path := by
  induction kept generalizing after with
  | nil =>
      cases h
      exact .inl ⟨rfl, rfl, List.forall_mem_nil _⟩
  | cons old rest ih =>
      rw [place] at h
      by_cases hname : old.decl.name = new.decl.name
      · rw [if_pos hname] at h
        by_cases hless : comparePaths new.path old.path = .lt
        · rw [if_pos hless] at h
          cases h
          exact .inr ⟨[], old, rest, new, old, rfl, hname, .inl ⟨rfl, rfl⟩, by rw [hless]; rfl, rfl, rfl⟩
        · rw [if_neg hless] at h
          cases h
          refine .inr ⟨[], old, rest, old, new, rfl, hname, .inr ⟨rfl, rfl⟩, ?_, rfl, rfl⟩
          exact isLE_of_not_lt hless
      · rw [if_neg hname] at h
        obtain ⟨behind, hbehind⟩ : ∃ behind, place new rest = (behind, repeated) ∧ after = old :: behind := by
          cases hrest : place new rest with
          | mk behind found =>
              rw [hrest] at h
              cases h
              exact ⟨behind, rfl, rfl⟩
        obtain ⟨hrest, rfl⟩ := hbehind
        rcases ih hrest with ⟨rfl, rfl, hnone⟩ |
          ⟨front, other, back, better, worse, rfl, hother, hsides, hle, rfl, rfl⟩
        · exact .inl ⟨rfl, rfl, List.forall_mem_cons.mpr ⟨hname, hnone⟩⟩
        · exact .inr ⟨old :: front, other, back, better, worse, rfl, hother, hsides, hle, rfl, rfl⟩

section Sides

variable {new old better worse : Kept} {front back : List Kept}

/-- Of two files with a type, the one that is kept has a path that is not greater than that of either. -/
theorem isLE_of_sides (hsides : better = new ∧ worse = old ∨ better = old ∧ worse = new)
    (hle : (comparePaths better.path worse.path).isLE) :
    (comparePaths better.path old.path).isLE ∧ (comparePaths better.path new.path).isLE := by
  rcases hsides with ⟨rfl, rfl⟩ | ⟨rfl, rfl⟩
  · exact ⟨hle, Std.ReflCmp.isLE_rfl⟩
  · exact ⟨Std.ReflCmp.isLE_rfl, hle⟩

theorem name_of_sides (hsides : better = new ∧ worse = old ∨ better = old ∧ worse = new)
    (hname : old.name = new.name) : better.name = old.name ∧ worse.name = old.name := by
  rcases hsides with ⟨rfl, rfl⟩ | ⟨rfl, rfl⟩
  · exact ⟨hname.symm, rfl⟩
  · exact ⟨rfl, hname.symm⟩

theorem perm_of_sides (hsides : better = new ∧ worse = old ∨ better = old ∧ worse = new) :
    (new :: (front ++ old :: back)).Perm ((front ++ better :: back) ++ [worse]) := by
  have hboth : (new :: (front ++ old :: back)).Perm (worse :: better :: (front ++ back)) := by
    rcases hsides with ⟨rfl, rfl⟩ | ⟨rfl, rfl⟩
    · exact (List.perm_middle.cons _).trans (.swap _ _ _)
    · exact List.perm_middle.cons _
  exact hboth.trans ((List.perm_middle.symm.cons _).trans (List.perm_append_singleton _ _).symm)

end Sides

namespace Report

/-- What a report accounts for: for each type that one of the files declares, one of these files is kept, with
a path that is not greater than that of any other, and all other files count as failures. -/
structure Accounts (files : List Examined) (report : Report) : Prop where
  count : report.files = files.length
  apart : (report.kept.map Kept.name).Nodup
  least : ∀ k ∈ report.kept, ∀ v ∈ verified files, v.name = k.name → (comparePaths k.path v.path).isLE
  balance : ∃ discarded, (verified files).Perm (report.kept ++ discarded) ∧
    (∀ d ∈ discarded, ∃ k ∈ report.kept, k.name = d.name) ∧
    report.failures = (refused files).length + discarded.length

namespace Accounts

variable {files : List Examined} {file : Examined} {report : Report} {decl : TypeDecl} {kept : List Kept}

theorem covers (h : Accounts files report) {v : Kept} (hv : v ∈ verified files) :
    ∃ k ∈ report.kept, k.name = v.name := by
  obtain ⟨discarded, hperm, hnames, _⟩ := h.balance
  rcases List.mem_append.mp (hperm.subset hv) with hkept | hdiscarded
  · exact ⟨v, hkept, rfl⟩
  · exact hnames v hdiscarded

theorem mem_verified_of_mem (h : Accounts files report) {k : Kept} (hk : k ∈ report.kept) :
    k ∈ verified files := by
  obtain ⟨discarded, hperm, _⟩ := h.balance
  exact hperm.symm.subset (List.mem_append_left _ hk)

theorem empty : Accounts [] .empty :=
  ⟨rfl, .nil, List.forall_mem_nil _, [], .nil, List.forall_mem_nil _, rfl⟩

theorem refuse (h : Accounts files report) {error : Error} (hfile : file.result = .error error) :
    Accounts (files ++ [file]) ⟨report.files + 1, report.kept, report.failures + 1⟩ := by
  obtain ⟨discarded, hperm, hnames, hfailures⟩ := h.balance
  refine ⟨?_, h.apart, ?_, discarded, ?_, hnames, ?_⟩
  · rw [List.length_append, h.count]
    rfl
  · rw [verified_concat_error files hfile]
    exact h.least
  · rw [verified_concat_error files hfile]
    exact hperm
  · rw [refused_concat_error files hfile, List.length_append, hfailures]
    exact Nat.add_right_comm _ _ _

theorem keep (h : Accounts files report) (hfile : file.result = .ok decl)
    (hnew : ∀ k ∈ report.kept, k.name ≠ decl.name) :
    Accounts (files ++ [file]) ⟨report.files + 1, report.kept ++ [⟨file.path, decl⟩], report.failures⟩ := by
  obtain ⟨discarded, hperm, hnames, hfailures⟩ := h.balance
  refine ⟨?_, ?_, ?_, discarded, ?_, ?_, ?_⟩
  · rw [List.length_append, h.count]
    rfl
  · rw [List.map_append, List.map_singleton, ← List.concat_eq_append, List.nodup_concat]
    refine ⟨?_, h.apart⟩
    rintro hmem
    obtain ⟨k, hk, hname⟩ := List.mem_map.mp hmem
    exact hnew k hk hname
  · intro k hk v hv hname
    rw [verified_concat_ok files hfile] at hv
    rcases List.mem_append.mp hk with hk | hk <;> rcases List.mem_append.mp hv with hv | hv
    · exact h.least k hk v hv hname
    · obtain rfl := List.mem_singleton.mp hv
      exact absurd hname.symm (hnew k hk)
    · obtain rfl := List.mem_singleton.mp hk
      obtain ⟨other, hother, hsame⟩ := h.covers hv
      exact absurd (hsame.trans hname) (hnew other hother)
    · obtain rfl := List.mem_singleton.mp hk
      obtain rfl := List.mem_singleton.mp hv
      exact Std.ReflCmp.isLE_rfl
  · rw [verified_concat_ok files hfile]
    refine (List.perm_append_singleton _ _).trans ((hperm.cons _).trans ?_)
    rw [List.append_assoc, List.singleton_append]
    exact List.perm_middle.symm
  · intro d hd
    obtain ⟨k, hk, hname⟩ := hnames d hd
    exact ⟨k, List.mem_append_left _ hk, hname⟩
  · rw [refused_concat_ok files hfile]
    exact hfailures

theorem name_ne_of_mem {front back : List Kept} {old k : Kept} (h : Accounts files report)
    (hkept : report.kept = front ++ old :: back) (hk : k ∈ front ++ back) : k.name ≠ old.name := by
  have hapart := h.apart
  rw [hkept, List.map_append, List.map_cons, List.nodup_middle, List.nodup_cons, ← List.map_append] at hapart
  exact fun hsame => hapart.1 (hsame ▸ List.mem_map_of_mem hk)

/-- Of two files with the same type the one with the greater path is discarded. -/
theorem discard {front back : List Kept} {old better worse : Kept}
    (h : Accounts files report) (hkept : report.kept = front ++ old :: back) (hfile : file.result = .ok decl)
    (hname : old.name = decl.name)
    (hsides : better = ⟨file.path, decl⟩ ∧ worse = old ∨ better = old ∧ worse = ⟨file.path, decl⟩)
    (hle : (comparePaths better.path worse.path).isLE) :
    Accounts (files ++ [file]) ⟨report.files + 1, front ++ better :: back, report.failures + 1⟩ := by
  obtain ⟨discarded, hperm, hnames, hfailures⟩ := h.balance
  obtain ⟨hbetter, hworse⟩ := name_of_sides hsides hname
  obtain ⟨hold, hnew⟩ := isLE_of_sides hsides hle
  have hverified : verified (files ++ [file]) = verified files ++ [⟨file.path, decl⟩] :=
    verified_concat_ok files hfile
  refine ⟨?_, ?_, ?_, worse :: discarded, ?_, ?_, ?_⟩
  · rw [List.length_append, h.count]
    rfl
  · have hapart := h.apart
    rw [hkept] at hapart
    rwa [List.map_append, List.map_cons, hbetter, ← List.map_cons, ← List.map_append]
  · intro k hk v hv hsame
    rw [hverified, List.mem_append, List.mem_singleton] at hv
    rcases List.mem_cons.mp (List.perm_middle.subset hk) with rfl | hk
    · rcases hv with hv | rfl
      · have hmem : old ∈ report.kept := hkept ▸ List.mem_append_right _ List.mem_cons_self
        exact Std.TransCmp.isLE_trans hold (h.least old hmem v hv (hsame.trans hbetter))
      · exact hnew
    · rcases hv with hv | rfl
      · have hmem : k ∈ report.kept := hkept ▸ List.perm_middle.symm.subset (List.mem_cons_of_mem _ hk)
        exact h.least k hmem v hv hsame
      · exact absurd (hsame.symm.trans hname.symm) (h.name_ne_of_mem hkept hk)
  · calc verified (files ++ [file])
      _ = verified files ++ [⟨file.path, decl⟩] := hverified
      List.Perm _ (⟨file.path, decl⟩ :: verified files) := List.perm_append_singleton _ _
      List.Perm _ (⟨file.path, decl⟩ :: (front ++ old :: back) ++ discarded) := (hkept ▸ hperm).cons _
      List.Perm _ ((front ++ better :: back) ++ [worse] ++ discarded) :=
        (perm_of_sides hsides).append_right discarded
      _ = (front ++ better :: back) ++ worse :: discarded := by rw [List.append_assoc, List.singleton_append]
  · have hfound : ∀ d : Kept, d.name = old.name → ∃ k ∈ front ++ better :: back, k.name = d.name :=
      fun d hd => ⟨better, List.mem_append_right _ List.mem_cons_self, hbetter.trans hd.symm⟩
    refine List.forall_mem_cons.mpr ⟨hfound worse hworse, fun d hd => ?_⟩
    obtain ⟨k, hk, hsame⟩ := hnames d hd
    rcases List.mem_cons.mp (List.perm_middle.subset (hkept ▸ hk)) with rfl | hk
    · exact hfound d hsame.symm
    · exact ⟨k, List.perm_middle.symm.subset (List.mem_cons_of_mem _ hk), hsame⟩
  · rw [refused_concat_ok files hfile, List.length_cons, hfailures]
    rfl

theorem record (h : Accounts files report) (file : Examined) :
    Accounts (files ++ [file]) (report.record file).1 := by
  rcases report.record_cases file with ⟨_, hfile, hrecord⟩ | ⟨_, _, hfile, hplace, hrecord⟩ |
    ⟨_, _, _, hfile, hplace, hrecord⟩ <;> rw [hrecord]
  · exact h.refuse hfile
  · rcases place_cases hplace with ⟨_, rfl, hnew⟩ | ⟨_, _, _, _, _, _, _, _, _, _, hnone⟩
    · exact h.keep hfile hnew
    · cases hnone
  · rcases place_cases hplace with ⟨hnone, _⟩ | ⟨_, _, _, _, _, hkept, hname, hsides, hle, rfl, _⟩
    · cases hnone
    · exact h.discard hkept hfile hname hsides hle

theorem ofFiles (files : List Examined) : Accounts files (.ofFiles files) := by
  induction files using List.reverseRecOn with
  | nil => exact empty
  | append_singleton files file ih =>
      rw [ofFiles_concat]
      exact ih.record file

/-- What is accounted for does not depend on the order of the files. -/
theorem of_perm {order : List Examined} (h : Accounts order report) (hperm : order.Perm files) :
    Accounts files report := by
  have hverified : (verified order).Perm (verified files) := hperm.filterMap _
  obtain ⟨discarded, hall, hnames, hfailures⟩ := h.balance
  refine ⟨h.count.trans hperm.length_eq, h.apart, fun k hk v hv => ?_, discarded,
    hverified.symm.trans hall, hnames, ?_⟩
  · exact h.least k hk v (hverified.symm.subset hv)
  · rw [hfailures, refused, refused, (hperm.filter _).length_eq]

end Accounts

end Report

/-- However the workers share the work, the report accounts for all files. -/
theorem Settled.accounts {files : List Examined} {report : Report} (h : Settled files report) :
    report.Accounts files := by
  obtain ⟨order, hperm, rfl⟩ := settled_iff.mp h
  exact (Report.Accounts.ofFiles order).of_perm hperm

theorem settled_ofFiles (files : List Examined) : Settled files (.ofFiles files) :=
  settled_iff.mpr ⟨files, .rfl, rfl⟩

namespace Report

theorem Accounts.files_eq {files : List Examined} {report : Report} (h : Accounts files report) :
    report.files = report.kept.length + report.failures := by
  obtain ⟨discarded, hperm, _, hfailures⟩ := h.balance
  have hverified := hperm.length_eq
  rw [List.length_append] at hverified
  have hall := length_verified_add_refused files
  rw [h.count, hfailures]
  omega

theorem sum_foldr (f : Kept → Nat) (kept : List Kept) :
    kept.foldr (fun k n => f k + n) 0 = (kept.map f).sum := by
  rw [List.sum_eq_foldr, List.foldr_map]

end Report

/-- A class file that declares a type without members. -/
def emptyClass : List UInt8 :=
  [0xca, 0xfe, 0xba, 0xbe, 0, 0, 0, 52, 0, 5, 1, 0, 1, 65, 7, 0, 1, 1, 0, 16, 106, 97, 118, 97, 47, 108, 97,
    110, 103, 47, 79, 98, 106, 101, 99, 116, 7, 0, 3, 0, 33, 0, 2, 0, 4, 0, 0, 0, 0, 0, 0, 0, 0]

end ClassFile.Survey
