import ClassFile.Reader

/-! Two runs of an action from related states. Runs in lockstep come to the same result in states that are
related again, or both fail. Only the first run may be cut off: it fails with an error of a certain kind,
whatever the second one does. -/

namespace ClassFile

variable {ε σ α β : Type}

/-- How two runs end that are in lockstep. -/
def Agree (related : σ → σ → Prop) (cut : ε → Prop) :
    EStateM.Result ε σ α → EStateM.Result ε σ α → Prop
  | .ok a s, .ok b t => a = b ∧ related s t
  | .ok _ _, .error _ _ => False
  | .error e _, .ok _ _ => cut e
  | .error _ _, .error _ _ => True

/-- From related states an action runs in lockstep. -/
def Lockstep (related : σ → σ → Prop) (cut : ε → Prop) (action : EStateM ε σ α) : Prop :=
  ∀ s t, related s t → Agree related cut (action s) (action t)

namespace Agree

variable {related : σ → σ → Prop} {cut : ε → Prop} {first second : EStateM.Result ε σ α} {a : α} {s : σ}

theorem cases (h : Agree related cut first second) :
    (∃ a s t, first = .ok a s ∧ second = .ok a t ∧ related s t) ∨
      ∃ e s, first = .error e s ∧
        ((∃ a t, second = .ok a t ∧ cut e) ∨ ∃ e' t, second = .error e' t) := by
  cases first with
  | ok a s =>
      cases second with
      | ok b t =>
          obtain ⟨rfl, hstates⟩ := h
          exact .inl ⟨a, s, t, rfl, rfl, hstates⟩
      | error e t => exact h.elim
  | error e s =>
      cases second with
      | ok a t => exact .inr ⟨e, s, rfl, .inl ⟨a, t, rfl, h⟩⟩
      | error e' t => exact .inr ⟨e, s, rfl, .inr ⟨e', t, rfl⟩⟩

/-- What the first run comes to, the second one does as well. -/
theorem of_first (h : Agree related cut first second) (hfirst : first = .ok a s) :
    ∃ t, second = .ok a t ∧ related s t := by
  rcases h.cases with ⟨_, _, t, hrun, hsecond, hstates⟩ | ⟨_, _, hrun, _⟩
  · cases hrun.symm.trans hfirst
    exact ⟨t, hsecond, hstates⟩
  · cases hrun.symm.trans hfirst

/-- What the second run comes to, the first one does unless it is cut off. -/
theorem of_second (h : Agree related cut first second) {t : σ} (hsecond : second = .ok a t) :
    (∃ s, first = .ok a s ∧ related s t) ∨ ∃ e s, first = .error e s ∧ cut e := by
  rcases h.cases with ⟨_, s, _, hfirst, hrun, hstates⟩ | ⟨e, s, hfirst, ⟨_, _, _, hcut⟩ | ⟨_, _, hrun⟩⟩
  · cases hrun.symm.trans hsecond
    exact .inl ⟨s, hfirst, hstates⟩
  · exact .inr ⟨e, s, hfirst, hcut⟩
  · cases hrun.symm.trans hsecond

end Agree

namespace Lockstep

variable {related : σ → σ → Prop} {cut : ε → Prop}

theorem pure (a : α) : Lockstep related cut (pure a : EStateM ε σ α) := fun _ _ h => ⟨rfl, h⟩

theorem throw (e : ε) : Lockstep related cut (MonadExcept.throw e : EStateM ε σ α) := fun _ _ _ => trivial

theorem throw_bind (e : ε) (next : α → EStateM ε σ β) :
    Lockstep related cut ((MonadExcept.throw e : EStateM ε σ α) >>= next) := fun _ _ _ => trivial

theorem bind {first : EStateM ε σ α} {next : α → EStateM ε σ β} (hfirst : Lockstep related cut first)
    (hnext : ∀ a, Lockstep related cut (next a)) : Lockstep related cut (first >>= next) := by
  intro s t h
  change Agree related cut (EStateM.bind first next s) (EStateM.bind first next t)
  unfold EStateM.bind
  rcases (hfirst s t h).cases with
    ⟨a, s', t', hs, ht, hstates⟩ | ⟨e, s', hs, ⟨a, t', ht, hcut⟩ | ⟨e', t', ht⟩⟩
  · rw [hs, ht]
    exact hnext a s' t' hstates
  · -- how the second run goes on does not matter once the first one is cut off
    rw [hs, ht]
    change Agree related cut (.error e s') (next a t')
    cases next a t' with
    | ok b t'' => exact hcut
    | error e' t'' => trivial
  · rw [hs, ht]
    trivial

theorem collectFrom {action : EStateM ε σ α} (h : Lockstep related cut action) (found : List α) (n : Nat) :
    Lockstep related cut (collectFrom action found n) := by
  induction n generalizing found with
  | zero => exact pure _
  | succ n ih => exact bind h fun a => ih (a :: found)

theorem collect {action : EStateM ε σ α} (h : Lockstep related cut action) (n : Nat) :
    Lockstep related cut (collect n action) := h.collectFrom [] n

theorem iterate {action : α → EStateM ε σ α} (h : ∀ a, Lockstep related cut (action a)) (a : α) (n : Nat) :
    Lockstep related cut (iterate action a n) := by
  induction n generalizing a with
  | zero => exact pure a
  | succ n ih => exact bind (h a) ih

end Lockstep

end ClassFile
