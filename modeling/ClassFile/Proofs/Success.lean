import ClassFile.Reader

/-! What follows when an action succeeds. Each part of a sequence succeeded then, and a check that was made
for every item of a list was passed by all of them. -/

namespace ClassFile

section Except

variable {ε α β : Type}

theorem bind_ok {first : Except ε α} {second : α → Except ε β} {result : β} :
    (first >>= second) = .ok result ↔ ∃ a, first = .ok a ∧ second a = .ok result := by
  constructor
  · intro h
    cases first with
    | error e => cases h
    | ok a => exact ⟨a, rfl, h⟩
  · rintro ⟨a, rfl, h⟩
    exact h

theorem bind_error {first : Except ε α} {second : α → Except ε β} {e : ε} :
    (first >>= second) = .error e ↔ first = .error e ∨ ∃ a, first = .ok a ∧ second a = .error e := by
  cases first with
  | error e' =>
      change Except.error e' = _ ↔ _
      simp
  | ok a =>
      change second a = _ ↔ _
      simp

theorem discard_ok {result : Except ε α} (h : discard result = .ok ()) : ∃ a, result = .ok a := by
  cases result with
  | error e => cases h
  | ok a => exact ⟨a, rfl⟩

theorem toOption_eq_some {result : Except ε α} {a : α} : result.toOption = some a ↔ result = .ok a := by
  cases result with
  | error e => exact ⟨nofun, nofun⟩
  | ok b => exact ⟨fun h => congrArg Except.ok (Option.some.inj h), fun h => congrArg some (Except.ok.inj h)⟩

theorem map_ok {f : α → β} {result : Except ε α} (h : ∃ a, result = .ok a) :
    ∃ b, f <$> result = .ok b := by
  obtain ⟨a, rfl⟩ := h
  exact ⟨f a, rfl⟩

theorem mapError_ok {ε' : Type} {f : ε → ε'} {result : Except ε α} {a : α} :
    result.mapError f = .ok a ↔ result = .ok a := by
  cases result with
  | error e => exact ⟨nofun, nofun⟩
  | ok b =>
      change Except.ok b = _ ↔ _
      rw [Except.ok.injEq, Except.ok.injEq]

theorem forM_eq_ok {f : α → Except ε Unit} {items : List α} :
    items.forM f = .ok () ↔ ∀ a ∈ items, f a = .ok () := by
  induction items with
  | nil => exact ⟨fun _ _ h => absurd h List.not_mem_nil, fun _ => rfl⟩
  | cons a rest ih =>
      rw [List.forall_mem_cons, ← ih]
      change (f a >>= fun _ => rest.forM f) = .ok () ↔ _
      rw [bind_ok]
      exact ⟨fun ⟨_, h, h'⟩ => ⟨h, h'⟩, fun ⟨h, h'⟩ => ⟨(), h, h'⟩⟩

end Except

section State

variable {ε σ α β : Type}

theorem bind_run {first : EStateM ε σ α} {second : α → EStateM ε σ β} {result : β} {s s' : σ} :
    (first >>= second) s = .ok result s' ↔
      ∃ a t, first s = .ok a t ∧ second a t = .ok result s' := by
  change EStateM.bind first second s = _ ↔ _
  unfold EStateM.bind
  constructor
  · intro h
    cases hfirst : first s with
    | error e t => rw [hfirst] at h; cases h
    | ok a t => exact ⟨a, t, rfl, by rwa [hfirst] at h⟩
  · rintro ⟨a, t, hfirst, h⟩
    rw [hfirst]
    exact h

theorem bind_run_error {first : EStateM ε σ α} {second : α → EStateM ε σ β} {e : ε} {s s' : σ} :
    (first >>= second) s = .error e s' ↔
      first s = .error e s' ∨ ∃ a t, first s = .ok a t ∧ second a t = .error e s' := by
  change EStateM.bind first second s = _ ↔ _
  unfold EStateM.bind
  cases first s with
  | error e' t => simp
  | ok a t =>
      constructor
      · exact fun h => .inr ⟨a, t, rfl, h⟩
      · rintro (h | ⟨_, _, ⟨⟩, h⟩)
        · cases h
        · exact h

theorem discard_run {action : EStateM ε σ α} {s s' : σ} :
    discard action s = .ok () s' ↔ ∃ a, action s = .ok a s' := by
  change EStateM.map _ action s = _ ↔ _
  unfold EStateM.map
  constructor
  · intro h
    cases haction : action s with
    | error e t => rw [haction] at h; cases h
    | ok a t =>
        rw [haction] at h
        cases h
        exact ⟨a, rfl⟩
  · rintro ⟨a, haction⟩
    rw [haction]

theorem get_bind_run {second : σ → EStateM ε σ β} {s : σ} :
    ((get : EStateM ε σ σ) >>= second) s = second s s := rfl

/-- What an action returned and the state it ended in, if it succeeded. -/
def success? : EStateM.Result ε σ α → Option (α × σ)
  | .ok a s => some (a, s)
  | .error _ _ => none

theorem success?_eq_some {result : EStateM.Result ε σ α} {a : α} {s : σ} :
    success? result = some (a, s) ↔ result = .ok a s := by
  cases result with
  | error e t => simp [success?]
  | ok b t => simp [success?]

/-- An action succeeded with a result that has a property, if this can be computed. -/
theorem ok_of_success? {result : EStateM.Result ε σ α} {P : α → Prop} [DecidablePred P]
    (h : (success? result).any (fun a => P a.1) = true) : ∃ a s, result = .ok a s ∧ P a := by
  cases result with
  | error e t => cases h
  | ok a t => exact ⟨a, t, rfl, of_decide_eq_true h⟩

end State

end ClassFile
