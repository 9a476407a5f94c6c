import ClassFile.AttributeTable
import ClassFile.Proofs.Success

/-! Two actions side by side. Started in the same state they end in the same state, either with results that
are related or with errors that are. -/

namespace ClassFile

variable {ε σ α β γ δ : Type}

/-- How two runs end that went side by side. -/
def Matches (same : α → β → Prop) (alike : ε → ε → Prop) :
    EStateM.Result ε σ α → EStateM.Result ε σ β → Prop
  | .ok a s, .ok b t => same a b ∧ s = t
  | .error e s, .error f t => alike e f ∧ s = t
  | _, _ => False

/-- From every state two actions run side by side. -/
def SideBySide (same : α → β → Prop) (alike : ε → ε → Prop) (first : EStateM ε σ α)
    (second : EStateM ε σ β) : Prop :=
  ∀ s, Matches same alike (first s) (second s)

theorem Matches.cases {same : α → β → Prop} {alike : ε → ε → Prop} {first : EStateM.Result ε σ α}
    {second : EStateM.Result ε σ β} (h : Matches same alike first second) :
    (∃ a b s, first = .ok a s ∧ second = .ok b s ∧ same a b) ∨
      ∃ e f s, first = .error e s ∧ second = .error f s ∧ alike e f := by
  cases first with
  | ok a s =>
      cases second with
      | ok b t =>
          obtain ⟨hsame, rfl⟩ := h
          exact .inl ⟨a, b, s, rfl, rfl, hsame⟩
      | error f t => exact h.elim
  | error e s =>
      cases second with
      | ok b t => exact h.elim
      | error f t =>
          obtain ⟨halike, rfl⟩ := h
          exact .inr ⟨e, f, s, rfl, rfl, halike⟩

namespace SideBySide

variable {same : α → β → Prop} {after : γ → δ → Prop} {alike : ε → ε → Prop}

theorem pure {a : α} {b : β} (h : same a b) :
    SideBySide same alike (Pure.pure a : EStateM ε σ α) (Pure.pure b) := fun _ => ⟨h, rfl⟩

theorem throw {e f : ε} (h : alike e f) :
    SideBySide same alike (MonadExcept.throw e : EStateM ε σ α) (MonadExcept.throw f) :=
  fun _ => ⟨h, rfl⟩

/-- An action runs beside itself. -/
theorem refl {same : α → α → Prop} (hsame : ∀ a, same a a) (halike : ∀ e, alike e e)
    (action : EStateM ε σ α) : SideBySide same alike action action := by
  intro s
  cases action s with
  | ok a t => exact ⟨hsame a, rfl⟩
  | error e t => exact ⟨halike e, rfl⟩

theorem bind {first : EStateM ε σ α} {second : EStateM ε σ β} {next : α → EStateM ε σ γ}
    {next' : β → EStateM ε σ δ} (hfirst : SideBySide same alike first second)
    (hnext : ∀ a b, same a b → SideBySide after alike (next a) (next' b)) :
    SideBySide after alike (first >>= next) (second >>= next') := by
  intro s
  change Matches after alike (EStateM.bind first next s) (EStateM.bind second next' s)
  unfold EStateM.bind
  rcases (hfirst s).cases with ⟨a, b, t, ha, hb, hsame⟩ | ⟨e, f, t, he, hf, halike⟩
  · rw [ha, hb]
    exact hnext a b hsame t
  · rw [he, hf]
    exact ⟨halike, rfl⟩

/-- Both go on after the same action. -/
theorem bind_same {action : EStateM ε σ α} {next : α → EStateM ε σ γ} {next' : α → EStateM ε σ δ}
    (halike : ∀ e, alike e e) (hnext : ∀ a, SideBySide after alike (next a) (next' a)) :
    SideBySide after alike (action >>= next) (action >>= next') :=
  bind (refl (fun _ => rfl) halike action) fun a _ hsame => hsame ▸ hnext a

theorem iterate {action : α → EStateM ε σ α} {action' : β → EStateM ε σ β}
    (h : ∀ a b, same a b → SideBySide same alike (action a) (action' b)) {a : α} {b : β}
    (hstart : same a b) (n : Nat) :
    SideBySide same alike (ClassFile.iterate action a n) (ClassFile.iterate action' b n) := by
  induction n generalizing a b with
  | zero => exact pure hstart
  | succ n ih => exact bind (h a b hstart) fun _ _ hnext => ih hnext

end SideBySide

section Readers

variable {same : α → β → Prop} {alike : Error → Error → Prop}

theorem FileReader.sideBySide_within (place : Place)
    (halike : ∀ e f, alike e f →
      alike { e with places := place :: e.places } { f with places := place :: f.places })
    {reader : FileReader α} {reader' : FileReader β} (h : SideBySide same alike reader reader') :
    SideBySide same alike (within place reader) (within place reader') := by
  intro cursor
  unfold within
  rcases (h cursor).cases with ⟨a, b, after, ha, hb, hsame⟩ | ⟨e, f, after, he, hf, hef⟩
  · rw [ha, hb]
    exact ⟨hsame, rfl⟩
  · rw [he, hf]
    exact ⟨halike e f hef, rfl⟩

theorem Reader.sideBySide_runOn (contents : Cursor) {reader : FileReader α} {reader' : FileReader β}
    (h : SideBySide same alike reader reader') :
    SideBySide same alike (runOn contents reader) (runOn contents reader') := by
  intro cursor
  unfold runOn
  rcases (h contents).cases with ⟨a, b, after, ha, hb, hsame⟩ | ⟨e, f, after, he, hf, hef⟩
  · rw [ha, hb]
    exact ⟨hsame, rfl⟩
  · rw [he, hf]
    exact ⟨hef, rfl⟩

/-- Tables are read side by side if what their attributes say is. -/
theorem AttributeTable.sideBySide_read (pool : Pool) (location : Location) (version : Version)
    {add : α → Attribute → FileReader α} {add' : β → Attribute → FileReader β} {none : α} {none' : β}
    (halike : ∀ e, alike e e) (hnone : same none none')
    (hadd : ∀ a b, same a b → ∀ found, SideBySide same alike (add a found) (add' b found)) :
    SideBySide same alike (read pool location version add none) (read pool location version add' none') := by
  refine .bind_same halike fun count => .iterate (fun a b hab => ?_) hnone _
  refine .bind_same halike fun framed => ?_
  cases framed with
  | none => exact .pure hab
  | some framed =>
      obtain ⟨found, contents⟩ := framed
      refine Reader.sideBySide_runOn contents (.bind (hadd a b hab found) fun _ _ hafter => ?_)
      exact .bind_same halike fun _ => .pure hafter

end Readers

end ClassFile
