import Mathlib.Order.Defs.Unbundled

/-!
# What a stateful program can do to its state

Rules for programs in `EStateM`, where a thrown error keeps the state reached so far. A relation
`R` between states is what a program may do; the rules prove it of a sequence from its parts when
`R` is reflexive and transitive.

* `final m s`: the state after running `m` from `s`, whether it returned or threw.
* `Moves R m`: from every state, `m` moves along `R`.
-/

namespace StateSpec

variable {ε σ α β : Type} {f : α → EStateM ε σ β} {m : EStateM ε σ α}

/-- The state after running `m` from `s`, whether it returned or threw. -/
def final (m : EStateM ε σ α) (s : σ) : σ :=
  match m.run s with
  | .ok _ s' => s'
  | .error _ s' => s'

/-- From every state, `m` moves along `R`. -/
def Moves (R : σ → σ → Prop) (m : EStateM ε σ α) : Prop := ∀ s, R s (final m s)

theorem run_bind (m : EStateM ε σ α) (f : α → EStateM ε σ β) (s : σ) :
    (m >>= f).run s = match m.run s with
      | .ok a s' => (f a).run s'
      | .error e s' => .error e s' := rfl

theorem run_bind_ok {s s' : σ} {a : α}
    (h : m.run s = .ok a s') : (m >>= f).run s = (f a).run s' := by
  rw [run_bind, h]

/-- A sequence returns exactly when its first part does and the second does from there. -/
theorem run_bind_eq_ok {s t : σ} {b : β} :
    (m >>= f).run s = .ok b t ↔ ∃ a s', m.run s = .ok a s' ∧ (f a).run s' = .ok b t := by
  rw [run_bind]
  cases h : m.run s with
  | ok a s' =>
    constructor
    · intro hb
      exact ⟨a, s', rfl, hb⟩
    · rintro ⟨_, _, heq, hb⟩
      cases heq
      exact hb
  | error e s' => simp

theorem run_ofExcept_eq_ok {r : Except ε α} {s t : σ} {a : α} :
    (MonadExcept.ofExcept r : EStateM ε σ α).run s = .ok a t ↔ r = .ok a ∧ s = t := by
  cases r with
  | ok b => simp [MonadExcept.ofExcept, EStateM.run_pure]
  | error e =>
    constructor <;> intro h
    · cases h
    · cases h.1

theorem final_bind_ok {s s' : σ} {a : α}
    (h : m.run s = .ok a s') : final (m >>= f) s = final (f a) s' := by
  rw [final, run_bind_ok h]
  rfl

theorem final_bind_error {s s' : σ} {e : ε}
    (h : m.run s = .error e s') : final (m >>= f) s = s' := by
  rw [final, run_bind, h]

theorem final_of_ok {s s' : σ} {a : α} (h : m.run s = .ok a s') :
    final m s = s' := by
  rw [final, h]

theorem final_get_bind (f : σ → EStateM ε σ β) (s : σ) : final (get >>= f) s = final (f s) s := rfl

/-- A sequence ends where its first part throws, or where the second part ends from there. -/
theorem final_bind_cases (m : EStateM ε σ α) (f : α → EStateM ε σ β) (s : σ) :
    final (m >>= f) s = final m s ∨ ∃ a, final (m >>= f) s = final (f a) (final m s) := by
  cases h : m.run s with
  | ok a s' =>
    right
    exact ⟨a, by rw [final_bind_ok h, final_of_ok h]⟩
  | error e s' =>
    left
    rw [final_bind_error h, final, h]

theorem final_bind_pure (m : EStateM ε σ α) (f : α → β) (s : σ) :
    final (m >>= fun a => pure (f a)) s = final m s := by
  unfold final
  rw [run_bind]
  cases m.run s <;> rfl

/-! ## Rules -/

section Rules

variable {R : σ → σ → Prop}

theorem Moves.pure [Std.Refl R] (a : α) : Moves R (pure a : EStateM ε σ α) :=
  fun s => Std.Refl.refl s

theorem Moves.throw [Std.Refl R] (e : ε) : Moves R (throw e : EStateM ε σ α) :=
  fun s => Std.Refl.refl s

/-- Each part of a sequence moves along a relation of its own; a first part that throws ends it. -/
theorem Moves.bind_of {R₁ R₂ : σ → σ → Prop}
    (hm : Moves R₁ m) (hf : ∀ a, Moves R₂ (f a)) (hfirst : ∀ s s', R₁ s s' → R s s')
    (hboth : ∀ s s' s'', R₁ s s' → R₂ s' s'' → R s s'') : Moves R (m >>= f) := by
  intro s
  have h₁ := hm s
  cases h : m.run s with
  | ok a s' =>
    rw [final_of_ok h] at h₁
    rw [final_bind_ok h]
    exact hboth _ _ _ h₁ (hf a s')
  | error e s' =>
    rw [final_bind_error h]
    rw [final, h] at h₁
    exact hfirst _ _ h₁

theorem Moves.bind [IsTrans σ R] (hm : Moves R m)
    (hf : ∀ a, Moves R (f a)) : Moves R (m >>= f) :=
  hm.bind_of hf (fun _ _ => id) fun _ _ _ => IsTrans.trans _ _ _

end Rules

end StateSpec
