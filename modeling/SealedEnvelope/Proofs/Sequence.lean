set_option autoImplicit false

/-! # Steps that may fail

Most operations of the library run steps one after the other and stop at the first that fails: in
`Except` where there is no state, over a state (the octets still to be read, the source still to be
taken from) in `StateT` over it. The statements say when such a sequence ends well and when it
fails, in terms of its steps, so that proofs take a sequence apart without opening the monads. -/

namespace SealedEnvelope

variable {ε σ α β : Type}

/-! ## Without a state -/

theorem bind_eq_ok {x : Except ε α} {f : α → Except ε β} {b : β} :
    (x >>= f) = .ok b ↔ ∃ a, x = .ok a ∧ f a = .ok b := by
  cases x <;> simp [bind, Except.bind]

/-- A check that passes leaves what follows. -/
theorem check_bind_eq_ok {x : Except ε Unit} {f : Unit → Except ε β} {b : β} :
    (x >>= f) = .ok b ↔ x = .ok () ∧ f () = .ok b := by
  rw [bind_eq_ok]
  exact ⟨fun ⟨_, hx, hf⟩ => ⟨hx, hf⟩, fun ⟨hx, hf⟩ => ⟨(), hx, hf⟩⟩

theorem bind_eq_error {x : Except ε α} {f : α → Except ε β} {e : ε} :
    (x >>= f) = .error e ↔ x = .error e ∨ ∃ a, x = .ok a ∧ f a = .error e := by
  cases x <;> simp [bind, Except.bind]

theorem map_eq_ok {x : Except ε α} {f : α → β} {b : β} :
    (f <$> x) = .ok b ↔ ∃ a, x = .ok a ∧ f a = b := by
  cases x <;> simp [Functor.map, Except.map]

/-- What follows a step matters for the results that the step gives only. -/
theorem bind_congr_ok {x : Except ε α} {f g : α → Except ε β} (h : ∀ a, x = .ok a → f a = g a) :
    (x >>= f) = (x >>= g) := by
  cases x with
  | error e => rfl
  | ok a => exact h a rfl

theorem pure_eq_ok {a b : α} : (pure a : Except ε α) = .ok b ↔ a = b := by
  simp [pure, Except.pure]

theorem pure_eq_error {a : α} {e : ε} : (pure a : Except ε α) = .error e ↔ False := by
  simp [pure, Except.pure]

theorem throw_eq_ok {e : ε} {a : α} : (throw e : Except ε α) = .ok a ↔ False := by
  simp [throw, throwThe, MonadExceptOf.throw]

theorem mapError_ok {ε' : Type} (f : ε → ε') (a : α) :
    (Except.ok a : Except ε α).mapError f = .ok a := rfl

theorem mapError_error {ε' : Type} (f : ε → ε') (e : ε) :
    (Except.error e : Except ε α).mapError f = .error (f e) := rfl

theorem mapError_eq_ok {ε' : Type} {x : Except ε α} {f : ε → ε'} {a : α} :
    x.mapError f = .ok a ↔ x = .ok a := by
  cases x <;> simp [mapError_ok, mapError_error]

theorem mapError_eq_error {ε' : Type} {x : Except ε α} {f : ε → ε'} {e : ε'} :
    x.mapError f = .error e ↔ ∃ e', x = .error e' ∧ f e' = e := by
  cases x <;> simp [mapError_ok, mapError_error]

/-! ## Over a state -/

section State

variable {s s' s'' : σ} {a b : α} {e : ε}

theorem state_bind_apply (x : StateT σ (Except ε) α) (f : α → StateT σ (Except ε) β) (s : σ) :
    (x >>= f) s = x s >>= fun p => f p.1 p.2 := rfl

theorem state_pure_apply (a : α) (s : σ) :
    (pure a : StateT σ (Except ε) α) s = .ok (a, s) := rfl

theorem state_map_apply (x : StateT σ (Except ε) α) (f : α → β) (s : σ) :
    (f <$> x) s = x s >>= fun p => pure (f p.1, p.2) := rfl

/-- After a step that ends well, the rest runs on what it leaves. -/
theorem state_bind_of_ok {x : StateT σ (Except ε) α} (h : x s = .ok (a, s'))
    (f : α → StateT σ (Except ε) β) : (x >>= f) s = f a s' := by
  rw [state_bind_apply, h]
  rfl

theorem state_bind_eq_ok {x : StateT σ (Except ε) α} {f : α → StateT σ (Except ε) β} {b : β} :
    (x >>= f) s = .ok (b, s'') ↔ ∃ a s', x s = .ok (a, s') ∧ f a s' = .ok (b, s'') := by
  rw [state_bind_apply, bind_eq_ok, Prod.exists]

theorem state_bind_eq_error {x : StateT σ (Except ε) α} {f : α → StateT σ (Except ε) β} :
    (x >>= f) s = .error e
      ↔ x s = .error e ∨ ∃ a s', x s = .ok (a, s') ∧ f a s' = .error e := by
  rw [state_bind_apply, bind_eq_error, Prod.exists]

theorem state_bind_congr_ok {x : StateT σ (Except ε) α} {f g : α → StateT σ (Except ε) β}
    (h : ∀ a s', x s = .ok (a, s') → f a s' = g a s') : (x >>= f) s = (x >>= g) s :=
  bind_congr_ok fun p hp => h p.1 p.2 hp

theorem state_pure_eq_ok :
    (pure a : StateT σ (Except ε) α) s = .ok (b, s') ↔ a = b ∧ s = s' := by
  rw [state_pure_apply, Except.ok.injEq, Prod.mk.injEq]

theorem state_pure_eq_error : (pure a : StateT σ (Except ε) α) s = .error e ↔ False := by
  simp [state_pure_apply]

theorem state_lift_eq_ok {x : Except ε α} :
    (liftM x : StateT σ (Except ε) α) s = .ok (a, s') ↔ x = .ok a ∧ s = s' := by
  cases x <;> simp [liftM, monadLift, MonadLift.monadLift, StateT.lift, bind, Except.bind, pure,
    Except.pure]

theorem state_lift_eq_error {x : Except ε α} :
    (liftM x : StateT σ (Except ε) α) s = .error e ↔ x = .error e := by
  cases x <;> simp [liftM, monadLift, MonadLift.monadLift, StateT.lift, bind, Except.bind, pure,
    Except.pure]

theorem state_map_eq_ok {x : StateT σ (Except ε) α} {f : α → β} {b : β} :
    (f <$> x) s = .ok (b, s') ↔ ∃ a, x s = .ok (a, s') ∧ f a = b := by
  rw [state_map_apply, bind_eq_ok]
  constructor
  · rintro ⟨⟨a, t⟩, hx, hf⟩
    simp only [pure_eq_ok, Prod.mk.injEq] at hf
    obtain ⟨rfl, rfl⟩ := hf
    exact ⟨a, hx, rfl⟩
  · rintro ⟨a, hx, rfl⟩
    exact ⟨(a, s'), hx, rfl⟩

theorem state_map_eq_error {x : StateT σ (Except ε) α} {f : α → β} :
    (f <$> x) s = .error e ↔ x s = .error e := by
  rw [state_map_apply, bind_eq_error]
  simp [pure_eq_error]

end State

end SealedEnvelope
