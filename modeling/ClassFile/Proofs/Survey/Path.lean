import Mathlib.Order.Basic
import ClassFile.Survey.Path

/-! The order of paths. Paths are ordered by their components, and paths that compare equal have the same
components, however they are spelled. -/

namespace ClassFile.Survey

namespace PathComponent

/-- The place of a kind of components among the others. -/
def rank : PathComponent → Nat
  | .root => 0
  | .current => 1
  | .parent => 2
  | .normal _ => 3

def name : PathComponent → String
  | .normal name => name
  | _ => ""

theorem compare_eq (a b : PathComponent) :
    compare a b = compareLex (compareOn rank) (compareOn name) a b := by
  cases a with
  | normal n =>
      cases b with
      | normal m => exact Ordering.then_eq
      | _ => rfl
  | _ => cases b <;> rfl

theorem eq_of_rank_of_name {a b : PathComponent} (hrank : a.rank = b.rank) (hname : a.name = b.name) :
    a = b := by
  cases a with
  | normal n =>
      cases b with
      | normal m => exact congrArg normal hname
      | _ => cases hrank
  | _ => cases b <;> first | rfl | cases hrank

instance : Std.TransOrd PathComponent := by
  have h : (compare : PathComponent → PathComponent → Ordering) =
      compareLex (compareOn rank) (compareOn name) :=
    funext fun a => funext (compare_eq a)
  rw [Std.TransOrd, h]
  infer_instance

instance : Std.LawfulEqOrd PathComponent where
  eq_of_compare {a b} h := by
    rw [compare_eq, compareLex_eq_eq] at h
    exact eq_of_rank_of_name (Std.LawfulEqOrd.eq_of_compare h.1) (Std.LawfulEqOrd.eq_of_compare h.2)

end PathComponent

instance : Std.TransCmp comparePaths := inferInstanceAs (Std.TransCmp (compareOn components))

/-- Paths that compare equal differ in their spelling only. -/
theorem comparePaths_eq_eq {p q : String} : comparePaths p q = .eq ↔ components p = components q :=
  Std.LawfulEqOrd.compare_eq_iff_eq

theorem components_eq_of_le {p q : String} (h : (comparePaths p q).isLE) (h' : (comparePaths q p).isLE) :
    components p = components q :=
  comparePaths_eq_eq.mp (Std.OrientedCmp.isLE_antisymm h h')

theorem isLE_of_not_lt {p q : String} (h : comparePaths p q ≠ .lt) : (comparePaths q p).isLE := by
  have hswap : comparePaths q p = (comparePaths p q).swap := Std.OrientedCmp.eq_swap
  rw [hswap]
  cases hcompare : comparePaths p q with
  | lt => exact absurd hcompare h
  | eq => rfl
  | gt => rfl

end ClassFile.Survey
