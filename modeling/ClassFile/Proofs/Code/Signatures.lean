import Mathlib.Data.List.Induction
import Mathlib.Data.List.Nodup
import ClassFile.Code.Tables

/-! Merging generic signatures into a table of local variables. A signature names its variable by a key. The
variables of the table stay where they are, and behind them comes one variable for each key that the
table does not have. Of several variables with a key the first one is signed, and of several signatures
with a key the last one counts, whether the variable was in the table or was made for one of them. -/

namespace ClassFile

/-- What a signature names a variable by. -/
structure VariableKey where
  start : UInt16
  length : UInt16
  index : UInt16
  name : Text
  deriving DecidableEq

namespace LocalVariable

def key (v : LocalVariable) : VariableKey := ⟨v.start, v.length, v.index, v.name⟩

/-- A variable but for its signature. -/
def unsigned (v : LocalVariable) : LocalVariable := { v with signature := none }

end LocalVariable

namespace VariableSignature

def key (s : VariableSignature) : VariableKey := ⟨s.start, s.length, s.index, s.name⟩

end VariableSignature

/-- The keys of signatures that are not among some keys, each where it appears first. -/
def unmatchedKeys (keys : List VariableKey) (signatures : List VariableSignature) : List VariableKey :=
  ((signatures.map VariableSignature.key).filter (· ∉ keys)).eraseDups

/-- The last of some signatures with a key. -/
def lastSignature? (signatures : List VariableSignature) (key : VariableKey) : Option Text :=
  (signatures.filter fun s => s.key = key).getLast?.map VariableSignature.signature

section Keys

theorem eraseDups_concat {α : Type} [DecidableEq α] (items : List α) (a : α) :
    (items ++ [a]).eraseDups = if a ∈ items then items.eraseDups else items.eraseDups ++ [a] := by
  rw [List.eraseDups_append]
  by_cases h : a ∈ items <;> simp [List.removeAll, List.eraseDups_cons, h]

theorem nodup_eraseDups {α : Type} [DecidableEq α] (items : List α) : items.eraseDups.Nodup := by
  induction items using List.reverseRecOn with
  | nil => exact .nil
  | append_singleton items a ih =>
      rw [eraseDups_concat]
      split
      · exact ih
      · rename_i hnew
        exact List.Nodup.append ih (List.nodup_singleton a)
          (List.disjoint_singleton.mpr (mt List.mem_eraseDups.mp hnew))

variable {keys : List VariableKey} {signatures : List VariableSignature} {s : VariableSignature}

theorem unmatchedKeys_concat :
    unmatchedKeys keys (signatures ++ [s]) =
      if s.key ∈ keys ∨ s.key ∈ unmatchedKeys keys signatures then unmatchedKeys keys signatures
      else unmatchedKeys keys signatures ++ [s.key] := by
  unfold unmatchedKeys
  rw [List.map_append, List.filter_append]
  by_cases hkeys : s.key ∈ keys
  · simp [hkeys]
  · simp only [List.map_cons, List.map_nil, List.filter_cons, hkeys, not_false_eq_true, decide_true,
      if_true, List.filter_nil, eraseDups_concat, List.mem_eraseDups, false_or]

theorem notMem_of_mem_unmatchedKeys {key : VariableKey} (h : key ∈ unmatchedKeys keys signatures) :
    key ∉ keys := by
  rw [unmatchedKeys, List.mem_eraseDups, List.mem_filter] at h
  exact of_decide_eq_true h.2

theorem lastSignature?_concat (key : VariableKey) :
    lastSignature? (signatures ++ [s]) key =
      if s.key = key then some s.signature else lastSignature? signatures key := by
  unfold lastSignature?
  rw [List.filter_append]
  by_cases h : s.key = key <;> simp [h]

theorem lastSignature?_ne_none {key : VariableKey} :
    lastSignature? signatures key ≠ none ↔ ∃ s ∈ signatures, s.key = key := by
  simp [lastSignature?]

end Keys

namespace VariableSignature

variable {s : VariableSignature} {v : LocalVariable} {localVariables front back : List LocalVariable}

theorem describes_iff : s.describes v = true ↔ v.key = s.key := by
  simp [describes, key, LocalVariable.key, and_assoc]

theorem attachTo_cons_self (h : v.key = s.key) :
    s.attachTo (v :: back) = { v with signature := some s.signature } :: back := by
  rw [attachTo, if_pos (describes_iff.mpr h)]

theorem attachTo_cons_ne (h : v.key ≠ s.key) : s.attachTo (v :: back) = v :: s.attachTo back := by
  rw [attachTo, if_neg (mt describes_iff.mp h)]

/-- A signature goes to the first part of a table if it describes one of the variables there. -/
theorem attachTo_append :
    s.attachTo (front ++ back) =
      if s.key ∈ front.map LocalVariable.key then s.attachTo front ++ back
      else front ++ s.attachTo back := by
  induction front with
  | nil => rfl
  | cons v rest ih =>
      by_cases h : v.key = s.key
      · rw [List.cons_append, attachTo_cons_self h, attachTo_cons_self h, List.map_cons, h,
          if_pos List.mem_cons_self, List.cons_append]
      · have hmem : s.key ∈ (v :: rest).map LocalVariable.key ↔ s.key ∈ rest.map LocalVariable.key := by
          rw [List.map_cons, List.mem_cons, or_iff_right (Ne.symm h)]
        rw [List.cons_append, attachTo_cons_ne h, attachTo_cons_ne h, ih, if_congr hmem rfl rfl]
        split <;> rfl

theorem attachTo_of_notMem (h : s.key ∉ localVariables.map LocalVariable.key) :
    s.attachTo localVariables = localVariables ++ [s.toVariable] := by
  rw [← List.append_nil localVariables, attachTo_append, if_neg h, List.append_nil]
  rfl

/-- Attaching a signature to a variable changes nothing but signatures. -/
theorem unsigned_attachTo (h : s.key ∈ localVariables.map LocalVariable.key) :
    (s.attachTo localVariables).map LocalVariable.unsigned =
      localVariables.map LocalVariable.unsigned := by
  induction localVariables with
  | nil => cases h
  | cons v rest ih =>
      by_cases hv : v.key = s.key
      · rw [attachTo_cons_self hv]
        rfl
      · rw [attachTo_cons_ne hv, List.map_cons, List.map_cons, ih]
        rw [List.map_cons, List.mem_cons] at h
        exact h.resolve_left (Ne.symm hv)

end VariableSignature

theorem LocalVariable.key_unsigned (v : LocalVariable) : v.unsigned.key = v.key := rfl

theorem map_key_of_unsigned {some others : List LocalVariable}
    (h : some.map LocalVariable.unsigned = others.map LocalVariable.unsigned) :
    some.map LocalVariable.key = others.map LocalVariable.key := by
  have hkeys := congrArg (List.map LocalVariable.key) h
  simpa only [List.map_map, Function.comp_def, LocalVariable.key_unsigned] using hkeys

theorem map_type_of_unsigned {some others : List LocalVariable}
    (h : some.map LocalVariable.unsigned = others.map LocalVariable.unsigned) :
    some.map LocalVariable.type = others.map LocalVariable.type := by
  have htypes := congrArg (List.map LocalVariable.type) h
  simpa only [List.map_map, Function.comp_def, LocalVariable.unsigned] using htypes

/-- The first variable with each key, other than those that were seen before, has the signature of that key,
and all other variables have none. -/
def SignedBy (signature? : VariableKey → Option Text) (seen : List VariableKey) :
    List LocalVariable → Prop
  | [] => True
  | v :: rest =>
    v.signature = (if v.key ∈ seen then none else signature? v.key) ∧
      SignedBy signature? (v.key :: seen) rest

namespace SignedBy

variable {signature? other? : VariableKey → Option Text} {seen : List VariableKey}
  {localVariables : List LocalVariable}

theorem congr (h : SignedBy signature? seen localVariables)
    (hsame : ∀ key ∉ seen, other? key = signature? key) : SignedBy other? seen localVariables := by
  induction localVariables generalizing seen with
  | nil => trivial
  | cons v rest ih =>
      refine ⟨?_, ih h.2 fun key hkey => hsame key (mt (List.mem_cons_of_mem _) hkey)⟩
      rw [h.1]
      split
      · rfl
      · rename_i hnew
        exact (hsame _ hnew).symm

theorem of_none (h : ∀ v ∈ localVariables, v.signature = none) :
    SignedBy (fun _ => none) seen localVariables := by
  induction localVariables generalizing seen with
  | nil => trivial
  | cons v rest ih =>
      rw [List.forall_mem_cons] at h
      exact ⟨h.1.trans (ite_self _).symm, ih h.2⟩

/-- A further signature is the one of its key from then on. -/
theorem attachTo {s : VariableSignature} (h : SignedBy signature? seen localVariables)
    (hnew : s.key ∉ seen)
    (hs : ∀ key, other? key = if s.key = key then some s.signature else signature? key) :
    SignedBy other? seen (s.attachTo localVariables) := by
  induction localVariables generalizing seen with
  | nil =>
      refine ⟨?_, trivial⟩
      change some s.signature = if s.key ∈ seen then none else other? s.key
      rw [if_neg hnew, hs, if_pos rfl]
  | cons v rest ih =>
      by_cases hv : v.key = s.key
      · rw [VariableSignature.attachTo_cons_self hv]
        refine ⟨?_, h.2.congr fun key hkey => ?_⟩
        · change some s.signature = if v.key ∈ seen then none else other? v.key
          rw [hv, if_neg hnew, hs, if_pos rfl]
        · rw [hs, if_neg]
          rintro rfl
          exact hkey (hv ▸ List.mem_cons_self)
      · rw [VariableSignature.attachTo_cons_ne hv]
        refine ⟨?_, ih h.2 ?_⟩
        · rw [h.1, hs, if_neg (Ne.symm hv)]
        · rw [List.mem_cons]
          exact not_or.mpr ⟨Ne.symm hv, hnew⟩

theorem signature {before behind : List LocalVariable} {v : LocalVariable}
    (h : SignedBy signature? seen (before ++ v :: behind)) :
    v.signature =
      if v.key ∈ before.map LocalVariable.key ∨ v.key ∈ seen then none else signature? v.key := by
  induction before generalizing seen with
  | nil =>
      rw [h.1]
      simp
  | cons u rest ih =>
      rw [ih h.2]
      simp only [List.map_cons, List.mem_cons]
      exact if_congr (by tauto) rfl rfl

end SignedBy

/-- What is known of a table to which some signatures were attached: the variables of the table it was made
from, with or without signatures, and those that were made for signatures which describe none of them. -/
structure Attached (localVariables : List LocalVariable) (signatures : List VariableSignature)
    (kept added : List LocalVariable) : Prop where
  same : kept.map LocalVariable.unsigned = localVariables.map LocalVariable.unsigned
  untyped : ∀ v ∈ added, v.type = none
  keys : added.map LocalVariable.key =
    unmatchedKeys (localVariables.map LocalVariable.key) signatures
  signed : (∀ v ∈ localVariables, v.signature = none) →
    SignedBy (lastSignature? signatures) [] (kept ++ added)

namespace Attached

variable {localVariables kept added : List LocalVariable} {signatures : List VariableSignature}

theorem nil (localVariables : List LocalVariable) : Attached localVariables [] localVariables [] :=
  ⟨rfl, fun _ h => absurd h List.not_mem_nil, rfl, fun h => by
    rw [List.append_nil]
    exact .of_none h⟩

/-- What one more signature does: it signs a variable of the table, signs one that was made for another
signature, or has one made for it. -/
theorem concat (h : Attached localVariables signatures kept added) (s : VariableSignature) :
    ∃ kept' added', s.attachTo (kept ++ added) = kept' ++ added' ∧
      Attached localVariables (signatures ++ [s]) kept' added' := by
  have hkept := map_key_of_unsigned h.same
  have hsigned : (∀ v ∈ localVariables, v.signature = none) →
      SignedBy (lastSignature? (signatures ++ [s])) [] (s.attachTo (kept ++ added)) :=
    fun hnone => (h.signed hnone).attachTo List.not_mem_nil lastSignature?_concat
  have hkeys : unmatchedKeys (localVariables.map LocalVariable.key) (signatures ++ [s]) = _ :=
    unmatchedKeys_concat
  rw [← h.keys, ← hkept] at hkeys
  rw [VariableSignature.attachTo_append] at hsigned ⊢
  by_cases hold : s.key ∈ kept.map LocalVariable.key
  · rw [if_pos hold] at hsigned ⊢
    rw [if_pos (.inl hold), hkept] at hkeys
    exact ⟨_, added, rfl, (VariableSignature.unsigned_attachTo hold).trans h.same, h.untyped, hkeys.symm,
      hsigned⟩
  · rw [if_neg hold] at hsigned ⊢
    by_cases hmade : s.key ∈ added.map LocalVariable.key
    · rw [if_pos (.inr hmade), hkept] at hkeys
      have hsame := VariableSignature.unsigned_attachTo hmade
      refine ⟨kept, _, rfl, h.same, ?_, (map_key_of_unsigned hsame).trans hkeys.symm, hsigned⟩
      intro v hv
      have htype := List.mem_map_of_mem (f := LocalVariable.type) hv
      rw [map_type_of_unsigned hsame] at htype
      obtain ⟨u, hu, hutype⟩ := List.mem_map.mp htype
      exact hutype.symm.trans (h.untyped u hu)
    · rw [if_neg (not_or.mpr ⟨hold, hmade⟩), hkept] at hkeys
      rw [VariableSignature.attachTo_of_notMem hmade] at hsigned ⊢
      refine ⟨kept, _, rfl, h.same, ?_, ?_, hsigned⟩
      · intro v hv
        rcases List.mem_append.mp hv with hv | hv
        · exact h.untyped v hv
        · rw [List.mem_singleton.mp hv]
          rfl
      · rw [hkeys, List.map_append]
        rfl

end Attached

theorem attachSignatures_concat (localVariables : List LocalVariable)
    (signatures : List VariableSignature) (s : VariableSignature) :
    attachSignatures localVariables (signatures ++ [s]) =
      s.attachTo (attachSignatures localVariables signatures) := List.foldl_append

theorem exists_attached (localVariables : List LocalVariable) (signatures : List VariableSignature) :
    ∃ kept added, attachSignatures localVariables signatures = kept ++ added ∧
      Attached localVariables signatures kept added := by
  induction signatures using List.reverseRecOn with
  | nil => exact ⟨localVariables, [], (List.append_nil _).symm, .nil localVariables⟩
  | append_singleton signatures s ih =>
      obtain ⟨kept, added, hattach, h⟩ := ih
      rw [attachSignatures_concat, hattach]
      exact h.concat s

/-- Merging signatures into a table keeps its variables in their order, with nothing but signatures
changed. The variables behind them have no types and different keys, none of which the table has: the keys
of the signatures that describe no variable of the table, each where it appears first. If the table had no
signatures, exactly those variables have one that are the first with a key that a signature has, and theirs
is the last signature with the key. -/
theorem attachSignatures_attached (localVariables : List LocalVariable)
    (signatures : List VariableSignature) :
    ∃ kept added, attachSignatures localVariables signatures = kept ++ added ∧
      kept.map LocalVariable.unsigned = localVariables.map LocalVariable.unsigned ∧
      (∀ v ∈ added, v.type = none) ∧
      (added.map LocalVariable.key).Nodup ∧
      (∀ v ∈ added, v.key ∉ localVariables.map LocalVariable.key) ∧
      added.map LocalVariable.key =
        unmatchedKeys (localVariables.map LocalVariable.key) signatures ∧
      ((∀ v ∈ localVariables, v.signature = none) →
        ∀ before v behind, kept ++ added = before ++ v :: behind →
          (v.signature ≠ none ↔
            v.key ∉ before.map LocalVariable.key ∧ ∃ s ∈ signatures, s.key = v.key) ∧
          (v.signature ≠ none → v.signature = lastSignature? signatures v.key)) := by
  obtain ⟨kept, added, hattach, h⟩ := exists_attached localVariables signatures
  refine ⟨kept, added, hattach, h.same, h.untyped, ?_, ?_, h.keys, ?_⟩
  · rw [h.keys]
    exact nodup_eraseDups _
  · intro v hv
    have hkey := List.mem_map_of_mem (f := LocalVariable.key) hv
    rw [h.keys] at hkey
    exact notMem_of_mem_unmatchedKeys hkey
  · intro hnone before v behind hsplit
    have hsigned := h.signed hnone
    rw [hsplit] at hsigned
    have hsignature := hsigned.signature
    simp only [List.not_mem_nil, or_false] at hsignature
    rw [hsignature, ← lastSignature?_ne_none]
    split
    · rename_i hseen
      exact ⟨iff_of_false (fun h => h rfl) fun h => h.1 hseen, fun h => absurd rfl h⟩
    · rename_i hfirst
      exact ⟨⟨fun hsome => ⟨hfirst, hsome⟩, fun h => h.2⟩, fun _ => rfl⟩

/-- A table with a variable that has the key of another one, and signatures of which two are for that key and
two for a key that the table does not have. -/
def shadowedVariables : List LocalVariable :=
  let list : Option FieldType := some ⟨.primitive .int, 1⟩
  [⟨0, 4, .ofString "x", 1, list, none⟩, ⟨0, 4, .ofString "y", 2, list, none⟩,
    ⟨0, 4, .ofString "x", 1, list, none⟩]

def repeatedSignatures : List VariableSignature :=
  [⟨0, 4, .ofString "z", 3, .ofString "TA;"⟩, ⟨0, 4, .ofString "x", 1, .ofString "TB;"⟩,
    ⟨0, 4, .ofString "z", 3, .ofString "TC;"⟩, ⟨0, 4, .ofString "x", 1, .ofString "TD;"⟩]

/-- The variable that is shadowed stays without a signature, and the one that is made for two signatures has
the later one. -/
theorem shadowedVariables_attached :
    (∀ v ∈ shadowedVariables, v.signature = none) ∧
      ∃ first second third made,
        attachSignatures shadowedVariables repeatedSignatures = [first, second, third, made] ∧
          third.key = first.key ∧ third.signature = none ∧
          made.signature = lastSignature? repeatedSignatures made.key ∧
          made.signature = some (.ofString "TC;") := by
  have hnone : ∀ v ∈ shadowedVariables, v.signature = none := by decide
  obtain ⟨kept, added, hattach, _, _, _, _, _, hsigned⟩ :=
    attachSignatures_attached shadowedVariables repeatedSignatures
  obtain ⟨first, second, third, made, hvalue, hkey, hmade⟩ : ∃ first second third made,
      attachSignatures shadowedVariables repeatedSignatures = [first, second, third, made] ∧
        third.key = first.key ∧ made.signature = some (.ofString "TC;") :=
    ⟨_, _, _, _, rfl, rfl, rfl⟩
  rw [hvalue] at hattach
  have hthird := (hsigned hnone [first, second] third [made] hattach.symm).1
  have hlast := (hsigned hnone [first, second, third] made [] hattach.symm).2
  refine ⟨hnone, first, second, third, made, hvalue, hkey, ?_, hlast ?_, hmade⟩
  · refine Classical.not_not.mp (mt hthird.mp fun h => h.1 ?_)
    rw [hkey]
    exact List.mem_cons_self
  · rw [hmade]
    exact nofun

end ClassFile
