import ClassFile.Proofs.Attribute.Table

/-! The order of attributes. Each attribute changes its own part of what is said and looks at no other one, so
that attributes with different names can be exchanged. What a table says is then told by the attributes
with each name in their order, however those with different names are mixed and whatever stands between them
without a meaning. -/

namespace ClassFile

open FileReader Reader

/-- The attributes that count are the same ones, and those with the same name stand in the same order. Any
attributes that are not predefined may stand between them. -/
def FramedAttribute.Alike {pool : Pool} (these those : List (FramedAttribute pool)) : Prop :=
  ∀ found : Attribute,
    these.filter (fun f => f.predefined? = some found) = those.filter fun f => f.predefined? = some found

namespace FramedAttribute.Alike

variable {pool : Pool} {f g : FramedAttribute pool} {rest these those others : List (FramedAttribute pool)}

theorem trans (h : Alike these those) (h' : Alike those others) : Alike these others :=
  fun found => (h found).trans (h' found)

/-- Neighbours with different names can be exchanged. -/
theorem swap (front behind : List (FramedAttribute pool)) (h : f.name ≠ g.name) :
    Alike (front ++ f :: g :: behind) (front ++ g :: f :: behind) := by
  intro found
  have hdiffer : f.predefined? = some found → g.predefined? ≠ some found := by
    intro hf hg
    exact h ((name_of_predefined? hf).trans (name_of_predefined? hg).symm)
  rw [List.filter_append, List.filter_append]
  by_cases hf : f.predefined? = some found
  · simp [hf, hdiffer hf]
  · simp [List.filter_cons, hf]

/-- An attribute that is not predefined can be added anywhere. -/
theorem insert (front behind : List (FramedAttribute pool)) (h : f.predefined? = none) :
    Alike (front ++ behind) (front ++ f :: behind) := by
  intro found
  simp [h]

theorem nil_left (h : Alike [] those) : ∀ f ∈ those, f.predefined? = none := by
  intro f hf
  cases hfound : f.predefined? with
  | none => rfl
  | some found =>
      have hmem : f ∈ those.filter fun f => f.predefined? = some found :=
        List.mem_filter.mpr ⟨hf, decide_eq_true hfound⟩
      rw [← h found] at hmem
      cases hmem

theorem skip_left (h : Alike (f :: rest) those) (hf : f.predefined? = none) : Alike rest those := by
  intro found
  rw [← h found, List.filter_cons_of_neg]
  simp [hf]

/-- The first attribute that counts is found in a table that is alike, behind some with other names. -/
theorem cons_left (h : Alike (f :: rest) those) {a : Attribute} (hf : f.predefined? = some a) :
    ∃ front behind, those = front ++ f :: behind ∧ (∀ g ∈ front, g.predefined? ≠ some a) ∧
      Alike rest (front ++ behind) := by
  have hfirst := h a
  rw [List.filter_cons_of_pos (by simp [hf])] at hfirst
  obtain ⟨front, behind, rfl, hfront, _, hbehind⟩ := List.filter_eq_cons_iff.mp hfirst.symm
  have hfront : ∀ g ∈ front, g.predefined? ≠ some a := fun g hg hsame =>
    hfront g hg (decide_eq_true hsame)
  refine ⟨front, behind, rfl, hfront, fun found => ?_⟩
  have hfound := h found
  by_cases hsame : f.predefined? = some found
  · obtain rfl : a = found := Option.some.inj (hf.symm.trans hsame)
    have hnone : front.filter (fun g => g.predefined? = some a) = [] :=
      List.filter_eq_nil_iff.mpr fun g hg => by simpa using hfront g hg
    rw [List.filter_append, hnone, List.nil_append]
    exact hbehind.symm
  · rw [List.filter_cons_of_neg (by simpa using hsame), List.filter_append,
      List.filter_cons_of_neg (by simpa using hsame), ← List.filter_append] at hfound
    exact hfound

end FramedAttribute.Alike

/-- How an attribute adds what it says: the part of what is said that it changes, and how it changes it. -/
structure Placing (α : Type) where
  Held : Type
  get : α → Held
  set : α → Held → α
  change : Held → FileReader Held

namespace Placing

variable {α β : Type}

/-- Adds what an attribute says. -/
def add (placing : Placing α) (so : α) : FileReader α := do
  return placing.set so (← placing.change (placing.get so))

/-- A part that may be given only once. -/
def once [Outlined β] (get : α → Option β) (set : α → Option β → α) (attributes : List Attribute)
    (reader : FileReader β) : Placing α where
  Held := Option β
  get := get
  set := set
  change old := do fillOnce attributes old (← reader)

/-- A list that may be spread over several attributes. -/
def extending (get : α → List β) (set : α → List β → α) (reader : FileReader (List β)) : Placing α where
  Held := List β
  get := get
  set := set
  change old := do return old ++ (← reader)

/-- A mark that an attribute sets by being there. -/
def mark (get : α → Bool) (set : α → Bool → α) : Placing α where
  Held := Bool
  get := get
  set := set
  change _ := pure true

/-- Contents that are read over. -/
def ignored : Placing α where
  Held := Unit
  get _ := ()
  set so _ := so
  change _ := skipRest

theorem parseAll_add (placing : Placing α) (so : α) (contents : List UInt8) :
    parseAll (placing.add so) contents =
      (parseAll (placing.change (placing.get so)) contents).map (placing.set so) := by
  unfold parseAll Placing.add
  rw [parse_bind _ fun _ => .pure _]
  cases parse (placing.change (placing.get so)) contents with
  | none => rfl
  | some found =>
      obtain ⟨held, rest⟩ := found
      cases rest <;> rfl

/-- Two attributes change different parts. -/
structure Apart (p q : Placing α) : Prop where
  get_left : ∀ so held, q.get (p.set so held) = q.get so
  get_right : ∀ so held, p.get (q.set so held) = p.get so
  set : ∀ so held held', q.set (p.set so held) held' = p.set (q.set so held') held

/-- Two attributes say the same in either order. -/
def Exchange (p q : Placing α) : Prop :=
  ∀ so contents contents',
    ((parseAll (p.add so) contents).bind fun after => parseAll (q.add after) contents') =
      (parseAll (q.add so) contents').bind fun after => parseAll (p.add after) contents

theorem Apart.exchange {p q : Placing α} (h : Apart p q) : Exchange p q := by
  intro so contents contents'
  simp only [parseAll_add, Option.bind_map, Function.comp_def, h.get_left, h.get_right]
  cases parseAll (p.change (p.get so)) contents with
  | none => cases parseAll (q.change (q.get so)) contents' <;> rfl
  | some held =>
      cases parseAll (q.change (q.get so)) contents' with
      | none => rfl
      | some held' => exact congrArg some (h.set so held held')

theorem parseAll_fillOnce [Outlined β] (attributes : List Attribute) (old : Option β)
    (reader : FileReader β) (contents : List UInt8) :
    parseAll (do fillOnce attributes old (← reader)) contents =
      if old.isSome then none else (parseAll reader contents).map some := by
  unfold parseAll
  rw [parse_bind _ fun _ => placeless_fillOnce _ _ _]
  cases parse reader contents with
  | none => cases old <;> rfl
  | some found =>
      obtain ⟨value, rest⟩ := found
      cases old <;> cases rest <;> rfl

/-- Of two attributes for the same part the second one is refused, whichever this is. -/
theorem exchange_once [Outlined β] {get : α → Option β} {set : α → Option β → α}
    (hget : ∀ so held, get (set so held) = held) (attributes : List Attribute)
    (first second : FileReader β) :
    Exchange (once get set attributes first) (once get set attributes second) := by
  have hrefused : ∀ (first second : FileReader β) so contents contents',
      ((parseAll ((once get set attributes first).add so) contents).bind fun after =>
        parseAll ((once get set attributes second).add after) contents') = none := by
    intro first second so contents contents'
    rw [Option.bind_eq_none_iff]
    intro after hafter
    rw [parseAll_add] at hafter ⊢
    obtain ⟨held, hheld, rfl⟩ := Option.map_eq_some_iff.mp hafter
    change parseAll (do fillOnce attributes (get so) (← first)) contents = some held at hheld
    rw [parseAll_fillOnce] at hheld
    have hsome : held.isSome = true := by
      split at hheld
      · cases hheld
      · obtain ⟨value, _, rfl⟩ := Option.map_eq_some_iff.mp hheld
        rfl
    have hfilled : (get (set so held)).isSome = true := (congrArg Option.isSome (hget so held)).trans hsome
    exact Option.map_eq_none_iff.mpr ((parseAll_fillOnce _ _ _ _).trans (if_pos hfilled))
  intro so contents contents'
  rw [hrefused, hrefused]

end Placing

namespace AttributeTable

variable {α : Type} {pool : Pool} {location : Location} {version : Version}
  {add : α → Attribute → FileReader α} {placing : Attribute → Placing α}

section

variable (hadd : ∀ so found, add so found = (placing found).add so)
  (hexchange : ∀ a b, a ≠ b → (placing a).Exchange (placing b))
include hadd hexchange

variable (location version) in
theorem said?_exchange {f g : FramedAttribute pool} {a b : Attribute} (hf : f.predefined? = some a)
    (hg : g.predefined? = some b) (hab : a ≠ b) (so : α) :
    ((said? location version add so f).bind fun after => said? location version add after g) =
      (said? location version add so g).bind fun after => said? location version add after f := by
  simp only [said?, hf, hg, hadd]
  cases a.check location version with
  | error fault => cases b.check location version <;> simp
  | ok _ =>
      cases b.check location version with
      | error fault => simp
      | ok _ => exact hexchange a b hab so f.contents g.contents

/-- An attribute can be moved to the front of others with other names. -/
theorem foldlM_said?_moved {f : FramedAttribute pool} {a : Attribute} (hf : f.predefined? = some a)
    {front behind : List (FramedAttribute pool)} (hfront : ∀ g ∈ front, g.predefined? ≠ some a) (so : α) :
    (front ++ f :: behind).foldlM (said? location version add) so =
      (f :: (front ++ behind)).foldlM (said? location version add) so := by
  induction front generalizing so with
  | nil => rfl
  | cons g rest ih =>
      have hrest : ∀ after, (rest ++ f :: behind).foldlM (said? location version add) after =
          (f :: (rest ++ behind)).foldlM (said? location version add) after :=
        ih fun g hg => hfront g (List.mem_cons_of_mem _ hg)
      rw [List.cons_append, List.foldlM_cons, List.cons_append]
      simp only [hrest, List.foldlM_cons]
      cases hg : g.predefined? with
      | none => simp [said?, hg]
      | some b =>
          have hab : a ≠ b := by
            rintro rfl
            exact hfront g List.mem_cons_self hg
          have hswap := said?_exchange location version hadd hexchange hf hg hab so
          change ((said? location version add so g).bind fun after =>
              (said? location version add after f).bind _) =
            (said? location version add so f).bind fun after =>
              (said? location version add after g).bind _
          rw [← Option.bind_assoc, ← Option.bind_assoc, hswap]

omit hadd hexchange in
theorem foldlM_said?_ignored {attributes : List (FramedAttribute pool)}
    (h : ∀ f ∈ attributes, f.predefined? = none) (so : α) :
    attributes.foldlM (said? location version add) so = some so := by
  induction attributes with
  | nil => rfl
  | cons f rest ih =>
      rw [List.foldlM_cons, said?, h f List.mem_cons_self]
      exact ih fun g hg => h g (List.mem_cons_of_mem _ hg)

/-- Tables with the same attributes that count say the same, if those with each name stand in the same
order. -/
theorem foldlM_said?_alike {these those : List (FramedAttribute pool)}
    (h : FramedAttribute.Alike these those) (so : α) :
    these.foldlM (said? location version add) so = those.foldlM (said? location version add) so := by
  induction these generalizing those so with
  | nil => exact (foldlM_said?_ignored h.nil_left so).symm
  | cons f rest ih =>
      cases hf : f.predefined? with
      | none =>
          rw [List.foldlM_cons, said?, hf]
          exact ih (h.skip_left hf) so
      | some a =>
          obtain ⟨front, behind, rfl, hfront, hrest⟩ := h.cons_left hf
          rw [foldlM_said?_moved hadd hexchange hf hfront, List.foldlM_cons, List.foldlM_cons]
          exact bind_congr fun after => ih hrest after

end

end AttributeTable

end ClassFile
