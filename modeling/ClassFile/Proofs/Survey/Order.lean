import ClassFile.Proofs.Declaration.Lookup
import ClassFile.Proofs.Survey.Accounts

/-! The order in which the workers of a survey finish. It does not matter to the report, up to one thing: of
files with the same type whose paths are equal but spelled in different ways, the first one is kept. -/

namespace ClassFile.Survey

/-- Looking at the same place comes to the same result, however the path to it is spelled. -/
def Alike (files : List Examined) : Prop :=
  ∀ a ∈ files, ∀ b ∈ files, components a.path = components b.path → a.result = b.result

/-- No path of a type is spelled in two ways. -/
def SpelledOnce (kept : List Kept) : Prop :=
  ∀ a ∈ kept, ∀ b ∈ kept, components a.path = components b.path → a.path = b.path

/-- A type with the place of its file, which says nothing about the spelling of the path. -/
def Kept.placed (kept : Kept) : List PathComponent × TypeDecl := (components kept.path, kept.decl)

/-- A line of a listing without the spelling of the path. -/
def placedLine (line : String × String) : String × List PathComponent := (line.1, components line.2)

/-- A file that declares a type with a name, with the least path of all of these. -/
structure Least (files : List Examined) (name : ClassName) (kept : Kept) : Prop where
  verified : kept ∈ verified files
  name_eq : kept.name = name
  le : ∀ v ∈ Survey.verified files, v.name = name → (comparePaths kept.path v.path).isLE

/-- Sorting comes to the same for the same items, if items that compare equal are the same. -/
theorem mergeSort_eq_of_perm {α : Type} {cmp : α → α → Ordering} [Std.TransCmp cmp] {as bs : List α}
    (h : as.Perm bs) (heq : ∀ a ∈ as, ∀ b ∈ bs, cmp a b = .eq → a = b) :
    as.mergeSort (fun a b => (cmp a b).isLE) = bs.mergeSort fun a b => (cmp a b).isLE := by
  have hsorted : ∀ l : List α,
      (l.mergeSort fun a b => (cmp a b).isLE).Pairwise fun a b => (cmp a b).isLE := by
    refine List.pairwise_mergeSort (fun _ _ _ => Std.TransCmp.isLE_trans) fun a b => ?_
    have hswap : cmp b a = (cmp a b).swap := Std.OrientedCmp.eq_swap
    rw [hswap]
    cases cmp a b <;> rfl
  refine List.Perm.eq_of_pairwise (fun a b ha hb hle hle' => ?_) (hsorted as) (hsorted bs)
    ((List.mergeSort_perm as _).trans (h.trans (List.mergeSort_perm bs _).symm))
  exact heq a (List.mem_mergeSort.mp ha) b (List.mem_mergeSort.mp hb) (Std.OrientedCmp.isLE_antisymm hle hle')

namespace Report

/-- The file that is kept for a type with a name. -/
def keptFor (report : Report) (name : ClassName) : Option Kept :=
  report.kept.find? fun kept => decide (kept.name = name)

namespace Accounts

variable {files : List Examined} {report other : Report}

theorem keptFor_eq_some (h : Accounts files report) {name : ClassName} {kept : Kept} :
    report.keptFor name = some kept ↔ kept ∈ report.kept ∧ kept.name = name := by
  rw [keptFor, find?_eq_some_of_apart, decide_eq_true_eq]
  refine (List.pairwise_map.mp h.apart).imp fun hne hboth => hne ?_
  exact (of_decide_eq_true hboth.1).trans (of_decide_eq_true hboth.2).symm

theorem least_of_mem (h : Accounts files report) {kept : Kept} (hkept : kept ∈ report.kept) :
    Least files kept.name kept :=
  ⟨h.mem_verified_of_mem hkept, rfl, h.least kept hkept⟩

end Accounts

end Report

/-- The least file for a type is unique but for the spelling of its path. -/
theorem Least.placed_eq {files : List Examined} {name : ClassName} {kept other : Kept} (hfiles : Alike files)
    (h : Least files name kept) (h' : Least files name other) : kept.placed = other.placed := by
  have hcomponents : components kept.path = components other.path :=
    components_eq_of_le (h.le other h'.verified h'.name_eq) (h'.le kept h.verified h.name_eq)
  obtain ⟨file, hfile, hpath, hresult⟩ := mem_verified.mp h.verified
  obtain ⟨file', hfile', hpath', hresult'⟩ := mem_verified.mp h'.verified
  have hsame : file.result = file'.result :=
    hfiles file hfile file' hfile' (by rw [hpath, hpath', hcomponents])
  rw [hresult, hresult'] at hsame
  rw [Kept.placed, Kept.placed, hcomponents, Except.ok.inj hsame]

namespace Report.Accounts

variable {files : List Examined} {report other : Report}

theorem exists_placed_eq (hfiles : Alike files) (h : Accounts files report) (h' : Accounts files other)
    {kept : Kept} (hkept : kept ∈ report.kept) :
    ∃ k ∈ other.kept, k.name = kept.name ∧ kept.placed = k.placed := by
  obtain ⟨k, hk, hname⟩ := h'.covers (h.mem_verified_of_mem hkept)
  exact ⟨k, hk, hname, (h.least_of_mem hkept).placed_eq hfiles (hname ▸ h'.least_of_mem hk)⟩

/-- What is kept is the same in all reports on the same files, but for the spelling of the paths. -/
theorem perm_placed (hfiles : Alike files) (h : Accounts files report) (h' : Accounts files other) :
    (report.kept.map Kept.placed).Perm (other.kept.map Kept.placed) := by
  have hsub : ∀ {r r' : Report}, Accounts files r → Accounts files r' →
      ∀ v ∈ r.kept.map Kept.placed, v ∈ r'.kept.map Kept.placed := by
    intro r r' hr hr' v hv
    obtain ⟨kept, hkept, rfl⟩ := List.mem_map.mp hv
    obtain ⟨k, hk, _, hplaced⟩ := exists_placed_eq hfiles hr hr' hkept
    exact hplaced ▸ List.mem_map_of_mem hk
  have hnodup : ∀ {r : Report}, Accounts files r → (r.kept.map Kept.placed).Nodup := by
    intro r hr
    have hnames : r.kept.map Kept.name = (r.kept.map Kept.placed).map fun placed => placed.2.name := by
      rw [List.map_map]
      rfl
    exact (hnames ▸ hr.apart).of_map _
  exact (List.perm_ext_iff_of_nodup (hnodup h) (hnodup h')).mpr fun v => ⟨hsub h h' v, hsub h' h v⟩

theorem keptFor_placed_eq (hfiles : Alike files) (h : Accounts files report) (h' : Accounts files other)
    (name : ClassName) :
    (report.keptFor name).map Kept.placed = (other.keptFor name).map Kept.placed := by
  have hsub : ∀ {r r' : Report}, Accounts files r → Accounts files r' → ∀ v,
      (r.keptFor name).map Kept.placed = some v → (r'.keptFor name).map Kept.placed = some v := by
    intro r r' hr hr' v hv
    obtain ⟨kept, hkept, rfl⟩ := Option.map_eq_some_iff.mp hv
    obtain ⟨hmem, rfl⟩ := hr.keptFor_eq_some.mp hkept
    obtain ⟨k, hk, hname, hplaced⟩ := exists_placed_eq hfiles hr hr' hmem
    rw [hr'.keptFor_eq_some.mpr ⟨hk, hname⟩, hplaced]
    rfl
  exact Option.ext fun v => ⟨hsub h h' v, hsub h' h v⟩

end Report.Accounts

namespace Report

/-- The line of a listing for a file that is kept. -/
def line (kept : Kept) : String × String := (kept.decl.name.display, kept.path)

/-- The order of the lines of a listing. -/
def compareLines : String × String → String × String → Ordering :=
  compareLex (compareOn Prod.fst) (compareOn fun line => components line.2)

/-- The order of the lines of a listing, without the spelling of the paths. -/
def comparePlaced : String × List PathComponent → String × List PathComponent → Ordering :=
  compareLex (compareOn Prod.fst) (compareOn Prod.snd)

instance : Std.TransCmp compareLines :=
  inferInstanceAs (Std.TransCmp (compareLex (compareOn Prod.fst) (compareOn fun line => components line.2)))

instance : Std.TransCmp comparePlaced :=
  inferInstanceAs (Std.TransCmp (compareLex (compareOn Prod.fst) (compareOn Prod.snd)))

theorem comparePlaced_eq_eq {a b : String × List PathComponent} : comparePlaced a b = .eq ↔ a = b := by
  rw [comparePlaced, compareLex_eq_eq, compareOn, compareOn, Std.LawfulEqCmp.compare_eq_iff_eq,
    Std.LawfulEqCmp.compare_eq_iff_eq, Prod.ext_iff]

theorem listing_eq (report : Report) :
    report.listing = (report.kept.map line).mergeSort fun a b => (compareLines a b).isLE := rfl

theorem listing_placed (report : Report) :
    report.listing.map placedLine =
      ((report.kept.map Kept.placed).map fun placed => (placed.2.name.display, placed.1)).mergeSort
        fun a b => (comparePlaced a b).isLE := by
  have hsort (lines : List (String × String)) :
      (lines.mergeSort fun a b => (compareLines a b).isLE).map placedLine =
        (lines.map placedLine).mergeSort fun a b => (comparePlaced a b).isLE :=
    List.map_mergeSort fun _ _ _ _ => rfl
  rw [listing_eq, hsort, List.map_map, List.map_map]
  rfl

namespace Accounts

variable {files : List Examined} {report other : Report}

theorem listing_placed_eq (hfiles : Alike files) (h : Accounts files report) (h' : Accounts files other) :
    report.listing.map placedLine = other.listing.map placedLine := by
  rw [listing_placed, listing_placed]
  exact mergeSort_eq_of_perm ((perm_placed hfiles h h').map _) fun _ _ _ _ => comparePlaced_eq_eq.mp

/-- A summary counts what it counts over the places of the files. -/
theorem summary_eq (hfiles : Alike files) (h : Accounts files report) (h' : Accounts files other) :
    report.summary = other.summary := by
  have hperm := perm_placed hfiles h h'
  have hsum : ∀ f : TypeDecl → Nat,
      (report.kept.map fun kept => f kept.decl).sum = (other.kept.map fun kept => f kept.decl).sum := by
    intro f
    have hplaced := (hperm.map fun placed => f placed.2).sum_nat
    rwa [List.map_map, List.map_map] at hplaced
  have hfailures : report.failures = other.failures := by
    have htypes := hperm.length_eq
    rw [List.length_map, List.length_map] at htypes
    have hcount := h.files_eq
    rw [h.count, htypes, ← h'.count, h'.files_eq] at hcount
    exact (Nat.add_left_cancel hcount).symm
  have hmethods := hsum fun decl => decl.methods.length
  have hinstructions := hsum TypeDecl.instructionCount
  rw [← sum_foldr, ← sum_foldr] at hmethods hinstructions
  have htypes := hperm.length_eq
  rw [List.length_map, List.length_map] at htypes
  rw [summary, summary, hmethods, hinstructions, hfailures, htypes, h.count, h'.count]

/-- The file that is kept for each type is the same, if no path is spelled in two ways. -/
theorem kept_perm (hspelled : SpelledOnce (verified files)) (hfiles : Alike files) (h : Accounts files report)
    (h' : Accounts files other) : report.kept.Perm other.kept := by
  have hsub : ∀ {r r' : Report}, Accounts files r → Accounts files r' → ∀ k ∈ r.kept, k ∈ r'.kept := by
    intro r r' hr hr' k hk
    obtain ⟨k', hk', _, hplaced⟩ := exists_placed_eq hfiles hr hr' hk
    have hpath := hspelled k (hr.mem_verified_of_mem hk) k' (hr'.mem_verified_of_mem hk')
      (congrArg Prod.fst hplaced)
    have hsame : k = k' := by
      cases k
      cases k'
      rw [Kept.mk.injEq]
      exact ⟨hpath, congrArg Prod.snd hplaced⟩
    exact hsame ▸ hk'
  have hnodup : ∀ {r : Report}, Accounts files r → r.kept.Nodup := fun hr => hr.apart.of_map _
  exact (List.perm_ext_iff_of_nodup (hnodup h) (hnodup h')).mpr fun k => ⟨hsub h h' k, hsub h' h k⟩

theorem listing_eq_of_spelledOnce (hspelled : SpelledOnce (verified files)) (hfiles : Alike files)
    (h : Accounts files report) (h' : Accounts files other) : report.listing = other.listing := by
  rw [listing_eq, listing_eq]
  refine mergeSort_eq_of_perm ((kept_perm hspelled hfiles h h').map line) ?_
  rintro _ ha _ hb heq
  obtain ⟨k, hk, rfl⟩ := List.mem_map.mp ha
  obtain ⟨k', hk', rfl⟩ := List.mem_map.mp hb
  have hplaced : placedLine (line k) = placedLine (line k') := comparePlaced_eq_eq.mp heq
  have hname : (line k).1 = (line k').1 := congrArg (fun placed => placed.1) hplaced
  refine Prod.ext hname ?_
  exact hspelled k (h.mem_verified_of_mem hk) k' (h'.mem_verified_of_mem hk') (congrArg Prod.snd hplaced)

theorem isSome_keptFor (h : Accounts files report) {name : ClassName} :
    (report.keptFor name).isSome ↔ ∃ v ∈ verified files, v.name = name := by
  rw [Option.isSome_iff_exists]
  constructor
  · rintro ⟨kept, hkept⟩
    obtain ⟨hmem, hname⟩ := h.keptFor_eq_some.mp hkept
    exact ⟨kept, h.mem_verified_of_mem hmem, hname⟩
  · rintro ⟨v, hv, rfl⟩
    obtain ⟨kept, hmem, hname⟩ := h.covers hv
    exact ⟨kept, h.keptFor_eq_some.mpr ⟨hmem, hname⟩⟩

end Accounts

end Report

/-- The report on some files does not depend on the order in which the workers finish. For each type that is
declared a file with the least path is kept, and what is kept, the summary and the listing are the same but
for the spelling of paths that are equal. Where no path is spelled in two ways there is no difference. -/
theorem Settled.order_free {files : List Examined} {report other : Report} (h : Settled files report)
    (h' : Settled files other) (hfiles : Alike files) :
    (∀ name, (report.keptFor name).isSome ↔ ∃ v ∈ verified files, v.name = name) ∧
      (∀ name kept, report.keptFor name = some kept → Least files name kept) ∧
      (∀ name, (report.keptFor name).map Kept.placed = (other.keptFor name).map Kept.placed) ∧
      report.failures = other.failures ∧ report.summary = other.summary ∧
      report.listing.map placedLine = other.listing.map placedLine ∧
      (SpelledOnce (verified files) →
        (∀ name, report.keptFor name = other.keptFor name) ∧ report.listing = other.listing) := by
  have hsummary := h.accounts.summary_eq hfiles h'.accounts
  refine ⟨fun name => h.accounts.isSome_keptFor, fun name kept hkept => ?_, fun name => ?_,
    congrArg Summary.failures hsummary, hsummary, h.accounts.listing_placed_eq hfiles h'.accounts, ?_⟩
  · obtain ⟨hmem, rfl⟩ := h.accounts.keptFor_eq_some.mp hkept
    exact h.accounts.least_of_mem hmem
  · exact h.accounts.keptFor_placed_eq hfiles h'.accounts name
  · intro hspelled
    have hperm := h.accounts.kept_perm hspelled hfiles h'.accounts
    refine ⟨fun name => Option.ext fun kept => ?_, ?_⟩
    · rw [h.accounts.keptFor_eq_some, h'.accounts.keptFor_eq_some, hperm.mem_iff]
    · exact h.accounts.listing_eq_of_spelledOnce hspelled hfiles h'.accounts

/-- A file that is found below two directories that are the same. -/
def foundTwice : List Examined := [⟨"a/A.class", emptyClass⟩, ⟨"a/./A.class", emptyClass⟩].map examine

theorem foundTwice_alike : Alike foundTwice := by
  have hresult : ∀ file ∈ foundTwice, file.result = (examine ⟨"a/A.class", emptyClass⟩).result :=
    List.forall_mem_cons.mpr ⟨rfl, List.forall_mem_singleton.mpr rfl⟩
  intro a ha b hb _
  rw [hresult a ha, hresult b hb]

theorem foundTwice_settled :
    Settled foundTwice (.ofFiles foundTwice) ∧ Settled foundTwice (.ofFiles foundTwice.reverse) :=
  ⟨settled_ofFiles _, settled_iff.mpr ⟨_, List.reverse_perm _, rfl⟩⟩

theorem foundTwice_order_free :
    Settled foundTwice (.ofFiles foundTwice) ∧ Settled foundTwice (.ofFiles foundTwice.reverse) ∧
      Alike foundTwice ∧ (Report.ofFiles foundTwice).summary = ⟨2, 1, 0, 0, 1⟩ ∧
      (Report.ofFiles foundTwice.reverse).summary = ⟨2, 1, 0, 0, 1⟩ := by
  obtain ⟨hforth, hback⟩ := foundTwice_settled
  have hsummary : (Report.ofFiles foundTwice).summary = ⟨2, 1, 0, 0, 1⟩ := by decide +kernel
  obtain ⟨_, _, _, _, hsame, _⟩ := hforth.order_free hback foundTwice_alike
  exact ⟨hforth, hback, foundTwice_alike, hsummary, hsame ▸ hsummary⟩

/-- The listing shows the path of the file that was looked at first, so it does depend on the order. -/
theorem foundTwice_listing :
    Settled foundTwice (.ofFiles foundTwice) ∧ Settled foundTwice (.ofFiles foundTwice.reverse) ∧
      Alike foundTwice ∧ (Report.ofFiles foundTwice).listing = [("A", "a/A.class")] ∧
      (Report.ofFiles foundTwice.reverse).listing = [("A", "a/./A.class")] ∧
      (Report.ofFiles foundTwice).listing ≠ (Report.ofFiles foundTwice.reverse).listing := by
  have hlines : (Report.ofFiles foundTwice).kept.map Report.line = [("A", "a/A.class")] ∧
      (Report.ofFiles foundTwice.reverse).kept.map Report.line = [("A", "a/./A.class")] := by
    decide +kernel
  have hforth : (Report.ofFiles foundTwice).listing = [("A", "a/A.class")] := by
    rw [Report.listing_eq, hlines.1, List.mergeSort_singleton]
  have hback : (Report.ofFiles foundTwice.reverse).listing = [("A", "a/./A.class")] := by
    rw [Report.listing_eq, hlines.2, List.mergeSort_singleton]
  refine ⟨foundTwice_settled.1, foundTwice_settled.2, foundTwice_alike, hforth, hback, ?_⟩
  rw [hforth, hback]
  decide

end ClassFile.Survey
