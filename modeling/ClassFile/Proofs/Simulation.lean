import ClassFile.Proofs.Success

/-! Actions that follow others. If the first of two actions succeeds from a state, the second one does so from
every related state, with a related result and in states that are related again. Where the first one fails
nothing is said of the second. -/

namespace ClassFile

section Except

variable {ε α β γ δ : Type}

/-- If there is a first value there is a second one that is related to it. -/
def Entails (same : α → β → Prop) (first : Except ε α) (second : Except ε β) : Prop :=
  ∀ a, first = .ok a → ∃ b, second = .ok b ∧ same a b

namespace Entails

variable {same : α → β → Prop} {after : γ → δ → Prop}

theorem ok {a : α} {b : β} (h : same a b) : Entails same (.ok a : Except ε α) (.ok b) := by
  rintro _ ⟨⟩
  exact ⟨b, rfl, h⟩

theorem error {e : ε} {second : Except ε β} : Entails same (.error e) second := nofun

theorem bind {first : Except ε α} {second : Except ε β} {next : α → Except ε γ}
    {next' : β → Except ε δ} (hfirst : Entails same first second)
    (hnext : ∀ a b, same a b → Entails after (next a) (next' b)) :
    Entails after (first >>= next) (second >>= next') := by
  intro c hc
  obtain ⟨a, ha, hc⟩ := bind_ok.mp hc
  obtain ⟨b, hb, hsame⟩ := hfirst a ha
  obtain ⟨d, hd, hafter⟩ := hnext a b hsame c hc
  exact ⟨d, bind_ok.mpr ⟨b, hb, hd⟩, hafter⟩

theorem of_eq {result : Except ε α} {same : α → α → Prop} (h : ∀ a, same a a) :
    Entails same result result := fun a ha => ⟨a, ha, h a⟩

theorem bind_same {result : Except ε α} {next : α → Except ε γ} {next' : α → Except ε δ}
    (h : ∀ a, Entails after (next a) (next' a)) : Entails after (result >>= next) (result >>= next') :=
  .bind (.of_eq fun _ => rfl) fun a _ hsame => hsame ▸ h a

theorem foldlM {step : γ → α → Except ε γ} {step' : δ → α → Except ε δ} {items : List α}
    (h : ∀ c d, after c d → ∀ a ∈ items, Entails after (step c a) (step' d a)) :
    ∀ c d, after c d → Entails after (items.foldlM step c) (items.foldlM step' d) := by
  induction items with
  | nil => exact fun c d hcd => .ok hcd
  | cons a rest ih =>
      intro c d hcd
      rw [List.foldlM_cons, List.foldlM_cons]
      exact .bind (h c d hcd a List.mem_cons_self) fun c' d' hcd' =>
        ih (fun c d hcd a ha => h c d hcd a (List.mem_cons_of_mem _ ha)) c' d' hcd'

end Entails

end Except

section State

variable {ε σ τ α β γ δ : Type}

/-- Whenever the first action succeeds, the second one does so from every related state. -/
def Follows (related : σ → τ → Prop) (same : α → β → Prop) (first : EStateM ε σ α)
    (second : EStateM ε τ β) : Prop :=
  ∀ s t, related s t → ∀ a s', first s = .ok a s' →
    ∃ b t', second t = .ok b t' ∧ same a b ∧ related s' t'

namespace Follows

variable {related : σ → τ → Prop} {same : α → β → Prop} {after : γ → δ → Prop}

theorem pure {a : α} {b : β} (h : same a b) :
    Follows related same (Pure.pure a : EStateM ε σ α) (Pure.pure b) := by
  rintro s t hst _ _ ⟨⟩
  exact ⟨b, t, rfl, h, hst⟩

theorem throw {e : ε} {second : EStateM ε τ β} :
    Follows related same (MonadExcept.throw e : EStateM ε σ α) second := by
  rintro s t _ a s' ⟨⟩

theorem throw_bind {e : ε} {next : α → EStateM ε σ γ} {second : EStateM ε τ δ} :
    Follows related after ((MonadExcept.throw e : EStateM ε σ α) >>= next) second := by
  rintro s t _ c s' ⟨⟩

theorem bind {first : EStateM ε σ α} {second : EStateM ε τ β} {next : α → EStateM ε σ γ}
    {next' : β → EStateM ε τ δ} (hfirst : Follows related same first second)
    (hnext : ∀ a b, same a b → Follows related after (next a) (next' b)) :
    Follows related after (first >>= next) (second >>= next') := by
  intro s t hst c s' hc
  obtain ⟨a, u, ha, hc⟩ := bind_run.mp hc
  obtain ⟨b, v, hb, hsame, huv⟩ := hfirst s t hst a u ha
  obtain ⟨d, t', hd, hafter, hst'⟩ := hnext a b hsame u v huv c s' hc
  exact ⟨d, t', bind_run.mpr ⟨b, v, hb, hd⟩, hafter, hst'⟩

theorem get_bind {next : σ → EStateM ε σ γ} {next' : τ → EStateM ε τ δ}
    (h : ∀ s t, related s t → Follows related after (next s) (next' t)) :
    Follows related after (get >>= next) (get >>= next') :=
  fun s t hst => h s t hst s t hst

theorem discard {first : EStateM ε σ α} {second : EStateM ε τ β}
    (h : Follows related same first second) :
    Follows related (fun _ _ => True) (Functor.discard first) (Functor.discard second) := by
  intro s t hst _ s' hrun
  obtain ⟨a, ha⟩ := discard_run.mp hrun
  obtain ⟨b, t', hb, _, hst'⟩ := h s t hst a s' ha
  exact ⟨(), t', discard_run.mpr ⟨b, hb⟩, trivial, hst'⟩

theorem mono {same' : α → β → Prop} {first : EStateM ε σ α} {second : EStateM ε τ β}
    (h : Follows related same first second) (hsame : ∀ a b, same a b → same' a b) :
    Follows related same' first second := by
  intro s t hst a s' ha
  obtain ⟨b, t', hb, hab, hst'⟩ := h s t hst a s' ha
  exact ⟨b, t', hb, hsame a b hab, hst'⟩

end Follows

end State

end ClassFile
