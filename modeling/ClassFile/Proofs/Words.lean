import Mathlib.Tactic.Ring
import ClassFile.Proofs.Outcome

/-! Arithmetic in machine words. A sum is kept as the number that it would be, with the word that has to hold
it; a machine makes the same number of it if and only if it fits into the word. Which sums an action forms is
told in two ways: by those that its basic parts form, along the way that it takes from a state, or by another
action that notes the sums and is the same without its notes. -/

namespace ClassFile

/-- A sum, a difference or a product, with the word that it is formed in. -/
inductive WordSum
  | unsigned (bits : Nat) (exact : Int)
  | signed (bits : Nat) (exact : Int)
  deriving DecidableEq

namespace WordSum

/-- The sum of two words of two bytes. -/
def add (a b : UInt16) : WordSum := .unsigned 16 (a.toNat + b.toNat)

/-- The difference of two words of two bytes. -/
def sub (a b : UInt16) : WordSum := .unsigned 16 (a.toNat - b.toNat)

def bits : WordSum → Nat
  | .unsigned bits _ | .signed bits _ => bits

/-- The number that it is. -/
def exact : WordSum → Int
  | .unsigned _ n | .signed _ n => n

/-- The number that a machine makes of it, which drops the bits that the word has no room for. -/
def wrapped : WordSum → Int
  | .unsigned bits n => n % 2 ^ bits
  | .signed bits n => n.bmod (2 ^ bits)

/-- It is a number that the word can hold. -/
def Fits : WordSum → Prop
  | .unsigned bits n => 0 ≤ n ∧ n < 2 ^ bits
  | .signed bits n => -2 ^ (bits - 1) ≤ n ∧ n < 2 ^ (bits - 1)

instance (s : WordSum) : Decidable s.Fits :=
  match s with
  | .unsigned _ _ | .signed _ _ => inferInstanceAs (Decidable (_ ∧ _))

theorem wrapped_eq_iff (s : WordSum) (h : 0 < s.bits) : s.wrapped = s.exact ↔ s.Fits := by
  cases s with
  | unsigned bits n =>
    have hpos : (0 : Int) < 2 ^ bits := Int.pow_pos (by decide)
    constructor
    · intro hwrapped
      change n % 2 ^ bits = n at hwrapped
      exact ⟨hwrapped ▸ Int.emod_nonneg n hpos.ne', hwrapped ▸ Int.emod_lt_of_pos n hpos⟩
    · exact fun hfits => Int.emod_eq_of_lt hfits.1 hfits.2
  | signed bits n =>
    obtain ⟨k, rfl⟩ : ∃ k, bits = k + 1 := ⟨bits - 1, (Nat.sub_add_cancel h).symm⟩
    change n.bmod (2 ^ (k + 1)) = n ↔ -2 ^ k ≤ n ∧ n < 2 ^ k
    have hpos : 0 < 2 ^ (k + 1) := Nat.pow_pos (by decide)
    have hhalf : ((2 ^ (k + 1) : Nat) : Int) / 2 = 2 ^ k ∧ (((2 ^ (k + 1) : Nat) : Int) + 1) / 2 = 2 ^ k := by
      rw [pow_succ]
      push_cast
      omega
    constructor
    · intro hwrapped
      have hle := Int.le_bmod (x := n) hpos
      have hlt := Int.bmod_lt (x := n) hpos
      rw [hwrapped] at hle hlt
      omega
    · intro hfits
      exact Int.bmod_eq_of_le (by omega) (by omega)

theorem toNat_add (a b : UInt16) : ((a + b).toNat : Int) = (add a b).wrapped := by
  rw [UInt16.toNat_add]
  exact Int.natCast_emod _ _

theorem toNat_sub (a b : UInt16) : ((a - b).toNat : Int) = (sub a b).wrapped := by
  rw [UInt16.toNat_sub]
  change _ = ((a.toNat : Int) - b.toNat) % 65536
  have ha := a.toNat_lt
  have hb := b.toNat_lt
  omega

theorem fits_unsigned {bits n : Nat} (h : n < 2 ^ bits) : (unsigned bits n).Fits := by
  constructor
  · exact Int.natCast_nonneg n
  · exact_mod_cast h

theorem fits_add {a b : UInt16} (h : a.toNat + b.toNat < 65536) : (add a b).Fits := fits_unsigned h

theorem fits_sub {a b : UInt16} (h : b ≤ a) : (sub a b).Fits := by
  have hle : b.toNat ≤ a.toNat := UInt16.le_iff_toNat_le.mp h
  have ha := a.toNat_lt
  change (0 : Int) ≤ a.toNat - b.toNat ∧ (a.toNat : Int) - b.toNat < 65536
  omega

end WordSum

/-- The state in which an action ends. -/
def endState {ε σ α : Type} : EStateM.Result ε σ α → σ
  | .ok _ s | .error _ s => s

/-- The sums that an action forms from a state, as told by those that its basic parts form. -/
inductive Forms {ε σ : Type} (Basic : (α : Type) → EStateM ε σ α → σ → List WordSum → Prop) :
    {α : Type} → EStateM ε σ α → σ → List WordSum → Prop
  | basic {α : Type} {action : EStateM ε σ α} {s : σ} {sums : List WordSum}
      (forms : Basic α action s sums) : Forms Basic action s sums
  | bind {α β : Type} {first : EStateM ε σ α} {next : α → EStateM ε σ β} {s s' : σ} {a : α}
      {sums more : List WordSum} (before : Forms Basic first s sums) (run : first s = .ok a s')
      (behind : Forms Basic (next a) s' more) : Forms Basic (first >>= next) s (sums ++ more)
  | fails {α β : Type} {first : EStateM ε σ α} {next : α → EStateM ε σ β} {s s' : σ} {e : ε}
      {sums : List WordSum} (before : Forms Basic first s sums) (run : first s = .error e s') :
      Forms Basic (first >>= next) s sums

/-- From states with a property an action forms only sums that fit, and if it comes to a result, it does so in
a state with another property. -/
structure Adds {ε σ α : Type} (Basic : (α : Type) → EStateM ε σ α → σ → List WordSum → Prop)
    (before : σ → Prop) (action : EStateM ε σ α) (after : σ → Prop) : Prop where
  fitting : ∀ s, before s → ∃ sums, Forms Basic action s sums ∧ ∀ sum ∈ sums, sum.Fits
  ensures : Ensures before action fun _ => after

namespace Adds

variable {ε σ α β : Type} {Basic : (α : Type) → EStateM ε σ α → σ → List WordSum → Prop}
  {before between after : σ → Prop}

/-- An action that forms no sums. -/
theorem quiet {action : EStateM ε σ α} (hquiet : ∀ s, Basic α action s [])
    (h : Ensures before action fun _ => after) : Adds Basic before action after :=
  ⟨fun s _ => ⟨[], .basic (hquiet s), List.forall_mem_nil _⟩, h⟩

theorem bind {first : EStateM ε σ α} {next : α → EStateM ε σ β} (hfirst : Adds Basic before first between)
    (hnext : ∀ a, Adds Basic between (next a) after) : Adds Basic before (first >>= next) after := by
  refine ⟨fun s hs => ?_, .bind hfirst.ensures fun a => (hnext a).ensures⟩
  obtain ⟨sums, hforms, hfits⟩ := hfirst.fitting s hs
  cases hrun : first s with
  | error e s' => exact ⟨sums, .fails hforms hrun, hfits⟩
  | ok a s' =>
    obtain ⟨more, hmore, hmorefits⟩ := (hnext a).fitting s' (hfirst.ensures.returned hs hrun)
    exact ⟨sums ++ more, .bind hforms hrun hmore, List.forall_mem_append.mpr ⟨hfits, hmorefits⟩⟩

theorem mono {action : EStateM ε σ α} {before' after' : σ → Prop} (h : Adds Basic before action after)
    (hbefore : ∀ s, before' s → before s) (hafter : ∀ s, after s → after' s) :
    Adds Basic before' action after' :=
  ⟨fun s hs => h.fitting s (hbefore s hs), h.ensures.mono hbefore fun _ => hafter⟩

/-- What is found does not matter. -/
theorem discard {action : EStateM ε σ α} (hquiet : ∀ s, Basic PUnit (Pure.pure PUnit.unit) s [])
    (h : Adds Basic before action after) : Adds Basic before (Functor.discard action) after := by
  have hbind : Functor.discard action = action >>= fun _ => Pure.pure PUnit.unit := by
    funext s
    change EStateM.map _ action s = EStateM.bind action _ s
    unfold EStateM.map EStateM.bind
    cases action s <;> rfl
  rw [hbind]
  exact .bind h fun _ => quiet hquiet (.pure fun _ hs => hs)

end Adds

/-- An action that notes the sums that it forms, the last one first. -/
abbrev Noting (ε σ : Type) := EStateM ε (σ × List WordSum)

/-- What an action comes to, with the sums that were noted. -/
def withNotes {ε σ α : Type} (notes : List WordSum) :
    EStateM.Result ε σ α → EStateM.Result ε (σ × List WordSum) α
  | .ok a s => .ok a (s, notes)
  | .error e s => .error e (s, notes)

namespace Noting

variable {ε σ α β : Type}

/-- A result that does not depend on the state. -/
def settled (result : Except ε α) : EStateM ε σ α := MonadExcept.ofExcept result

def note (sum : WordSum) : Noting ε σ Unit := modify fun (s, notes) => (s, sum :: notes)

/-- An action of which no sums are noted. -/
def quietly (action : EStateM ε σ α) : Noting ε σ α := fun (s, notes) => withNotes notes (action s)

/-- Without its notes an action is another one, and all sums that it notes fit. -/
def Fits (noting : Noting ε σ α) (action : EStateM ε σ α) : Prop :=
  ∀ s notes, (∀ sum ∈ notes, sum.Fits) →
    ∃ more, noting (s, notes) = withNotes more (action s) ∧ ∀ sum ∈ more, sum.Fits

namespace Fits

variable {noting : Noting ε σ α} {action : EStateM ε σ α} {next : α → Noting ε σ β}
  {after : α → EStateM ε σ β}

theorem quietly (action : EStateM ε σ α) : Fits (quietly action) action :=
  fun _ notes hnotes => ⟨notes, rfl, hnotes⟩

theorem note {sum : WordSum} (hsum : sum.Fits) (h : Fits noting action) :
    Fits (Noting.note sum >>= fun _ => noting) action :=
  fun s notes hnotes => h s (sum :: notes) (List.forall_mem_cons.mpr ⟨hsum, hnotes⟩)

theorem bind (h : Fits noting action)
    (hnext : ∀ a s s', action s = .ok a s' → Fits (next a) (after a)) :
    Fits (noting >>= next) (action >>= after) := by
  intro s notes hnotes
  obtain ⟨more, hrun, hmore⟩ := h s notes hnotes
  change ∃ last, EStateM.bind noting next (s, notes) = withNotes last (EStateM.bind action after s) ∧ _
  unfold EStateM.bind
  rw [hrun]
  cases haction : action s with
  | error e s' => exact ⟨more, rfl, hmore⟩
  | ok a s' => exact hnext a s s' haction s' more hmore

theorem quietly_bind (hnext : ∀ a s s', action s = .ok a s' → Fits (next a) (after a)) :
    Fits (Noting.quietly action >>= next) (action >>= after) := .bind (.quietly action) hnext

/-- What is done next does not matter behind a result that is an error. -/
theorem settled_bind {result : Except ε α} {second : α → Except ε β}
    (hnext : ∀ a, result = .ok a → Fits (next a) (settled (second a))) :
    Fits (settled result >>= next) (settled (result >>= second)) := by
  cases result with
  | error e => exact quietly (throw e : EStateM ε σ β)
  | ok a => exact hnext a rfl

/-- Each step may rely on what the steps before keep. -/
theorem iterate {noting : α → Noting ε σ α} {action : α → EStateM ε σ α} {P : α → Prop} {a : α}
    (hstep : ∀ a, P a → Fits (noting a) (action a))
    (hkeeps : ∀ a b s s', P a → action a s = .ok b s' → P b) (ha : P a) (n : Nat) :
    Fits (ClassFile.iterate noting a n) (ClassFile.iterate action a n) := by
  induction n generalizing a with
  | zero => exact quietly (pure a)
  | succ n ih => exact .bind (hstep a ha) fun b s s' hrun => ih (hkeeps a b s s' ha hrun)

end Fits

end Noting

end ClassFile
