import ClassFile.Proofs.Success

/-! What holds when an action is over, however it ends. An action that fails keeps the state that it has
reached, so a statement about it says what holds then as well. Where only some of this is of interest, the
statement is a case of the one about all of it: what an action ensures if it comes to a result, what it gives or
can be blamed for from any state, and its rules are those of the general statement. -/

namespace ClassFile

variable {ε σ α β : Type}

/-- An action ended with a result and in a state that have a property, or with a fault and in a state that
have another one. -/
def Ends (after : α → σ → Prop) (failing : ε → σ → Prop) : EStateM.Result ε σ α → Prop
  | .ok a s => after a s
  | .error e s => failing e s

/-- From all states with a property an action ends as described. -/
def Yields (before : σ → Prop) (action : EStateM ε σ α) (after : α → σ → Prop)
    (failing : ε → σ → Prop) : Prop :=
  ∀ s, before s → Ends after failing (action s)

namespace Yields

variable {before : σ → Prop} {failing : ε → σ → Prop}

theorem pure {a : α} {after : α → σ → Prop} (h : ∀ s, before s → after a s) :
    Yields before (pure a) after failing := h

theorem throw {e : ε} {after : α → σ → Prop} (h : ∀ s, before s → failing e s) :
    Yields before (throw e) after failing := h

theorem bind {first : EStateM ε σ α} {next : α → EStateM ε σ β} {between : α → σ → Prop}
    {after : β → σ → Prop} (hfirst : Yields before first between failing)
    (hnext : ∀ a, Yields (between a) (next a) after failing) :
    Yields before (first >>= next) after failing := by
  intro s hs
  have h := hfirst s hs
  change Ends after failing (EStateM.bind first next s)
  unfold EStateM.bind
  cases hrun : first s with
  | error e s' =>
      rw [hrun] at h
      exact h
  | ok a s' =>
      rw [hrun] at h
      exact hnext a s' h

theorem throw_bind {e : ε} {next : α → EStateM ε σ β} {after : β → σ → Prop}
    (h : ∀ s, before s → failing e s) :
    Yields before (MonadExcept.throw e >>= next) after failing := h

theorem get_bind {next : σ → EStateM ε σ β} {after : β → σ → Prop}
    (h : ∀ s, before s → Yields (fun t => t = s) (next s) after failing) :
    Yields before (get >>= next) after failing := fun s hs => h s hs s rfl

theorem map {action : EStateM ε σ α} {f : α → β} {after : β → σ → Prop}
    (h : Yields before action (fun a => after (f a)) failing) :
    Yields before (f <$> action) after failing := by
  intro s hs
  have haction := h s hs
  change Ends _ _ (EStateM.map f action s)
  unfold EStateM.map
  cases hrun : action s with
  | error e s' =>
      rw [hrun] at haction
      exact haction
  | ok a s' =>
      rw [hrun] at haction
      exact haction

theorem discard {action : EStateM ε σ α} {after : σ → Prop}
    (h : Yields before action (fun _ => after) failing) :
    Yields before (Functor.discard action) (fun _ => after) failing := map (f := fun _ => PUnit.unit) h

theorem given {fact : Prop} {action : EStateM ε σ α} {after : α → σ → Prop}
    (h : fact → Yields before action after failing) :
    Yields (fun s => fact ∧ before s) action after failing := fun s hs => h hs.1 s hs.2

theorem from_exists {ι : Type} {before : ι → σ → Prop} {action : EStateM ε σ α} {after : α → σ → Prop}
    (h : ∀ i, Yields (before i) action after failing) :
    Yields (fun s => ∃ i, before i s) action after failing := by
  rintro s ⟨i, hi⟩
  exact h i s hi

theorem mono {action : EStateM ε σ α} {before' : σ → Prop} {after after' : α → σ → Prop}
    {failing' : ε → σ → Prop} (h : Yields before action after failing)
    (hbefore : ∀ s, before' s → before s) (hafter : ∀ a s, after a s → after' a s)
    (hfailing : ∀ e s, failing e s → failing' e s) : Yields before' action after' failing' := by
  intro s hs
  have haction := h s (hbefore s hs)
  cases hrun : action s with
  | error e s' =>
      rw [hrun] at haction
      exact hfailing e s' haction
  | ok a s' =>
      rw [hrun] at haction
      exact hafter a s' haction

theorem returned {action : EStateM ε σ α} {after : α → σ → Prop} {s s' : σ} {a : α}
    (h : Yields before action after failing) (hs : before s) (hrun : action s = .ok a s') : after a s' := by
  have haction := h s hs
  rwa [hrun] at haction

theorem failed {action : EStateM ε σ α} {after : α → σ → Prop} {s s' : σ} {e : ε}
    (h : Yields before action after failing) (hs : before s) (hrun : action s = .error e s') :
    failing e s' := by
  have haction := h s hs
  rwa [hrun] at haction

end Yields

/-- From a state with one property an action only returns with another one, however it may fail. -/
abbrev Ensures (before : σ → Prop) (action : EStateM ε σ α) (after : α → σ → Prop) : Prop :=
  Yields before action after fun _ _ => True

namespace Ensures

variable {before : σ → Prop} {after : β → σ → Prop}

theorem of_run {action : EStateM ε σ β} (h : ∀ s b s', before s → action s = .ok b s' → after b s') :
    Ensures before action after := by
  intro s hs
  cases hrun : action s with
  | error e s' => trivial
  | ok b s' => exact h s b s' hs hrun

theorem throw {e : ε} : Ensures before (throw e : EStateM ε σ β) after := Yields.throw fun _ _ => trivial

theorem throw_bind {e : ε} {next : α → EStateM ε σ β} :
    Ensures before ((MonadExcept.throw e : EStateM ε σ α) >>= next) after :=
  Yields.throw_bind fun _ _ => trivial

theorem bind {first : EStateM ε σ α} {next : α → EStateM ε σ β} {m : α → σ → Prop}
    (hfirst : Ensures before first m) (hnext : ∀ a, Ensures (m a) (next a) after) :
    Ensures before (first >>= next) after := Yields.bind hfirst hnext

theorem get_bind {next : σ → EStateM ε σ β} (h : ∀ s, Ensures before (next s) after) :
    Ensures before (get >>= next) after := fun s => h s s

theorem mono {action : EStateM ε σ β} {before' : σ → Prop} {after' : β → σ → Prop}
    (h : Ensures before action after) (hbefore : ∀ s, before' s → before s)
    (hafter : ∀ b s, after b s → after' b s) : Ensures before' action after' :=
  Yields.mono h hbefore hafter fun _ _ _ => trivial

end Ensures

/-- Whatever state an action starts from, its result has a property, or its fault has another one. -/
abbrev ComesTo (action : EStateM ε σ α) (result : α → Prop) (fault : ε → Prop) : Prop :=
  Yields (fun _ => True) action (fun a _ => result a) fun e _ => fault e

namespace ComesTo

variable {result : β → Prop} {fault : ε → Prop}

theorem pure {b : β} (h : result b) : ComesTo (pure b : EStateM ε σ β) result fault := fun _ _ => h

theorem throw {e : ε} (h : fault e) : ComesTo (MonadExcept.throw e : EStateM ε σ β) result fault :=
  fun _ _ => h

theorem throw_bind {e : ε} (h : fault e) {next : α → EStateM ε σ β} :
    ComesTo ((MonadExcept.throw e : EStateM ε σ α) >>= next) result fault := fun _ _ => h

theorem bind {first : EStateM ε σ α} {next : α → EStateM ε σ β} {between : α → Prop}
    (hfirst : ComesTo first between fault) (hnext : ∀ a, between a → ComesTo (next a) result fault) :
    ComesTo (first >>= next) result fault := Yields.bind hfirst fun a s ha => hnext a ha s trivial

/-- What the first part comes to is of no interest. -/
theorem after {first : EStateM ε σ α} {next : α → EStateM ε σ β}
    (hfirst : ComesTo first (fun _ => True) fault) (hnext : ∀ a, ComesTo (next a) result fault) :
    ComesTo (first >>= next) result fault := Yields.bind hfirst hnext

theorem mono {action : EStateM ε σ β} {result' : β → Prop} {fault' : ε → Prop}
    (h : ComesTo action result fault) (hresult : ∀ b, result b → result' b)
    (hfault : ∀ e, fault e → fault' e) : ComesTo action result' fault' :=
  Yields.mono h (fun _ hs => hs) (fun b _ => hresult b) fun e _ => hfault e

theorem of_ok {action : EStateM ε σ β} {s s' : σ} {b : β} (h : ComesTo action result fault)
    (hrun : action s = .ok b s') : result b := h.returned trivial hrun

theorem of_error {action : EStateM ε σ β} {s s' : σ} {e : ε} (h : ComesTo action result fault)
    (hrun : action s = .error e s') : fault e := h.failed trivial hrun

theorem iterate {action : β → EStateM ε σ β} (h : ∀ b, result b → ComesTo (action b) result fault) {b : β}
    (hb : result b) (n : Nat) : ComesTo (iterate action b n) result fault := by
  induction n generalizing b with
  | zero => exact pure hb
  | succ n ih => exact bind (h b hb) fun b' hb' => ih hb'

theorem collectFrom {action : EStateM ε σ β} (h : ComesTo action result fault) {found : List β}
    (hfound : ∀ b ∈ found, result b) (n : Nat) :
    ComesTo (collectFrom action found n) (fun all => ∀ b ∈ all, result b) fault := by
  induction n generalizing found with
  | zero => exact pure fun b hb => hfound b (List.mem_reverse.mp hb)
  | succ n ih => exact bind h fun b hb => ih (List.forall_mem_cons.mpr ⟨hb, hfound⟩)

/-- Whatever is collected from an action has the property of its results. -/
theorem collect {action : EStateM ε σ β} (h : ComesTo action result fault) (n : Nat) :
    ComesTo (collect n action) (fun all => ∀ b ∈ all, result b) fault :=
  h.collectFrom (List.forall_mem_nil _) n

end ComesTo

/-- Whatever an action returns has a property. -/
abbrev Gives (P : α → Prop) (action : EStateM ε σ α) : Prop := ComesTo action P fun _ => True

namespace Gives

variable {P : β → Prop}

theorem of_run {action : EStateM ε σ β} (h : ∀ s b s', action s = .ok b s' → P b) : Gives P action :=
  Ensures.of_run fun s b s' _ => h s b s'

theorem throw {e : ε} : Gives P (throw e : EStateM ε σ β) := ComesTo.throw trivial

theorem throw_bind {e : ε} {next : α → EStateM ε σ β} :
    Gives P ((MonadExcept.throw e : EStateM ε σ α) >>= next) := ComesTo.throw_bind trivial

theorem bind {first : EStateM ε σ α} {next : α → EStateM ε σ β} {between : α → Prop}
    (hfirst : Gives between first) (hnext : ∀ a, between a → Gives P (next a)) :
    Gives P (first >>= next) := ComesTo.bind hfirst hnext

/-- Nothing needs to be known of the first part. -/
theorem skip {first : EStateM ε σ α} {next : α → EStateM ε σ β} (hnext : ∀ a, Gives P (next a)) :
    Gives P (first >>= next) := ComesTo.after (of_run fun _ _ _ _ => trivial) hnext

end Gives

/-- However an action fails, its fault has a property. -/
abbrev Blames (P : ε → Prop) (action : EStateM ε σ α) : Prop := ComesTo action (fun _ => True) P

namespace Blames

variable {P : ε → Prop}

theorem pure (a : α) : Blames P (pure a : EStateM ε σ α) := ComesTo.pure trivial

theorem bind {first : EStateM ε σ α} {next : α → EStateM ε σ β} (hfirst : Blames P first)
    (hnext : ∀ a, Blames P (next a)) : Blames P (first >>= next) := ComesTo.after hfirst hnext

theorem get_bind {next : σ → EStateM ε σ α} (h : ∀ s, Blames P (next s)) :
    Blames P (get >>= next) := fun s => h s s

theorem iterate {action : α → EStateM ε σ α} (h : ∀ a, Blames P (action a)) (a : α) (n : Nat) :
    Blames P (iterate action a n) := ComesTo.iterate (fun a _ => h a) trivial n

theorem collect {action : EStateM ε σ α} (h : Blames P action) (n : Nat) : Blames P (collect n action) :=
  (ComesTo.collect h n).mono (fun _ _ => trivial) fun _ he => he

end Blames

/-- A check fails with nothing but faults that have a property. -/
def FailsOnly (P : ε → Prop) (result : Except ε α) : Prop := ∀ e, result = .error e → P e

namespace FailsOnly

variable {P : ε → Prop}

theorem ok (a : α) : FailsOnly P (.ok a : Except ε α) := nofun

theorem error {e : ε} (h : P e) : FailsOnly P (.error e : Except ε α) := by
  rintro _ ⟨⟩
  exact h

theorem bind {first : Except ε α} {next : α → Except ε β} (hfirst : FailsOnly P first)
    (hnext : ∀ a, first = .ok a → FailsOnly P (next a)) : FailsOnly P (first >>= next) := by
  cases first with
  | error e => exact error (hfirst e rfl)
  | ok a => exact hnext a rfl

theorem mapError {ε' : Type} {P : ε' → Prop} {f : ε → ε'} {result : Except ε α} (h : ∀ e, P (f e)) :
    FailsOnly P (result.mapError f) := by
  cases result with
  | error e => exact error (h e)
  | ok a => exact ok a

theorem forM {check : α → Except ε Unit} {items : List α} (h : ∀ a, FailsOnly P (check a)) :
    FailsOnly P (items.forM check) := by
  induction items with
  | nil => exact ok ()
  | cons a rest ih => exact bind (h a) fun _ _ => ih

theorem mapM {f : α → Except ε β} {items : List α} (h : ∀ a, FailsOnly P (f a)) :
    FailsOnly P (items.mapM f) := by
  induction items with
  | nil => exact ok []
  | cons a rest ih =>
      rw [List.mapM_cons]
      exact bind (h a) fun _ _ => bind ih fun _ _ => ok _

theorem foldlM {f : β → α → Except ε β} {items : List α} (h : ∀ b a, FailsOnly P (f b a)) (b : β) :
    FailsOnly P (items.foldlM f b) := by
  induction items generalizing b with
  | nil => exact ok b
  | cons a rest ih =>
      rw [List.foldlM_cons]
      exact bind (h b a) fun b' _ => ih b'

end FailsOnly

end ClassFile
