import SealedEnvelope.Envelope

set_option autoImplicit false

/-! # Operations that draw from the tape

What a sequence of draws gives, and what one of draws that may also fail gives, in terms of its
steps. All draws but that of a private key take a fixed number of octets and so succeed on every
tape that has them (`Draw.Takes`). An operation that may fail has a result on every tape with enough
octets (`Sealing.Within`); what it fails with does not depend on the tape
(`Sealing.FailsWith`). -/

namespace SealedEnvelope

variable {α β ε : Type} {tape rest : Tape}

/-! ## Draws -/

namespace Draw

theorem bind_eq_some {x : Draw α} {f : α → Draw β} {b : β} :
    (x >>= f) tape = some (b, rest) ↔ ∃ a t, x tape = some (a, t) ∧ f a t = some (b, rest) := by
  rw [show (x >>= f) tape = (x tape).bind fun p => f p.1 p.2 from rfl, Option.bind_eq_some_iff,
    Prod.exists]

/-- Behind a draw the rest goes on with what is left of the tape. -/
theorem bind_of_some {x : Draw α} {f : α → Draw β} {a : α} (h : x tape = some (a, rest)) :
    (x >>= f) tape = f a rest := by
  rw [show (x >>= f) tape = (x tape).bind fun p => f p.1 p.2 from rfl, h]
  rfl

theorem pure_eq_some {a b : α} :
    (pure a : Draw α) tape = some (b, rest) ↔ a = b ∧ tape = rest := by
  rw [show (pure a : Draw α) tape = some (a, tape) from rfl, Option.some.injEq, Prod.mk.injEq]

theorem map_eq_some {x : Draw α} {f : α → β} {b : β} :
    (f <$> x) tape = some (b, rest) ↔ ∃ a, x tape = some (a, rest) ∧ f a = b := by
  rw [show (f <$> x) tape = (x tape).bind fun p => some (f p.1, p.2) from rfl,
    Option.bind_eq_some_iff]
  simp [Prod.ext_iff]

/-- The draw has a result on every tape with `n` octets, and takes these. -/
def Takes (n : Nat) (x : Draw α) : Prop :=
  ∀ tape : Tape, n ≤ tape.length → ∃ a, x tape = some (a, tape.drop n)

theorem takes_octets (n : Nat) : Takes n (octets n) := by
  intro tape h
  rw [octets, Octets.split?, dif_pos h]
  exact ⟨_, rfl⟩

theorem Takes.map {n : Nat} {x : Draw α} (h : Takes n x) (f : α → β) : Takes n (f <$> x) := by
  intro tape htape
  obtain ⟨a, ha⟩ := h tape htape
  exact ⟨f a, map_eq_some.2 ⟨a, ha, rfl⟩⟩

theorem takes_pure (a : α) : Takes 0 (pure a) := fun _ _ => ⟨a, pure_eq_some.2 ⟨rfl, rfl⟩⟩

theorem Takes.bind {m n : Nat} {x : Draw α} {f : α → Draw β} (hx : Takes m x)
    (hf : ∀ a, Takes n (f a)) : Takes (m + n) (x >>= f) := by
  intro tape htape
  obtain ⟨a, ha⟩ := hx tape (by omega)
  obtain ⟨b, hb⟩ := hf a (tape.drop m) (by rw [List.length_drop]; omega)
  rw [List.drop_drop] at hb
  exact ⟨b, bind_eq_some.2 ⟨a, _, ha, hb⟩⟩

end Draw

/-! ## Draws that may fail -/

namespace Sealing

theorem bind_eq_ok {x : ExceptT ε Draw α} {f : α → ExceptT ε Draw β} {b : β} :
    (x >>= f).run tape = some (.ok b, rest)
      ↔ ∃ a t, x.run tape = some (.ok a, t) ∧ (f a).run t = some (.ok b, rest) := by
  rw [ExceptT.run_bind, Draw.bind_eq_some]
  constructor
  · rintro ⟨r, t, hx, hf⟩
    cases r with
    | ok a => exact ⟨a, t, hx, hf⟩
    | error e => simp [Draw.pure_eq_some] at hf
  · rintro ⟨a, t, hx, hf⟩
    exact ⟨.ok a, t, hx, hf⟩

/-- Nothing is done behind a failure. -/
theorem bind_of_error {x : Sealing α} {f : α → Sealing β} {e : Error}
    (h : x.run tape = some (.error e, rest)) : (x >>= f).run tape = some (.error e, rest) := by
  rw [ExceptT.run_bind, Draw.bind_eq_some]
  exact ⟨.error e, rest, h, rfl⟩

/-- A sequence fails where one of its steps does. -/
theorem bind_eq_error {x : Sealing α} {f : α → Sealing β} {e : Error} :
    (x >>= f).run tape = some (.error e, rest)
      ↔ x.run tape = some (.error e, rest)
        ∨ ∃ a t, x.run tape = some (.ok a, t) ∧ (f a).run t = some (.error e, rest) := by
  constructor
  · intro h
    rw [ExceptT.run_bind, Draw.bind_eq_some] at h
    obtain ⟨r, t, hx, hf⟩ := h
    cases r with
    | ok a => exact Or.inr ⟨a, t, hx, hf⟩
    | error e' =>
      obtain ⟨he, rfl⟩ := Draw.pure_eq_some.1 hf
      obtain rfl := Except.error.inj he
      exact Or.inl hx
  · intro h
    rcases h with hx | ⟨a, t, hx, hf⟩
    · exact bind_of_error hx
    · rw [ExceptT.run_bind, Draw.bind_eq_some]
      exact ⟨.ok a, t, hx, hf⟩

theorem pure_eq_ok {a b : α} :
    (pure a : ExceptT ε Draw α).run tape = some (.ok b, rest) ↔ a = b ∧ tape = rest := by
  rw [ExceptT.run_pure, Draw.pure_eq_some, Except.ok.injEq]

/-- A check draws nothing. -/
theorem lift_eq_ok {x : Except ε α} {a : α} :
    (liftM x : ExceptT ε Draw α).run tape = some (.ok a, rest) ↔ x = .ok a ∧ tape = rest := by
  rw [show (liftM x : ExceptT ε Draw α).run tape = some (x, tape) from rfl, Option.some.injEq,
    Prod.mk.injEq]

theorem lift_eq_error {x : Except Error α} {e : Error} :
    (liftM x : Sealing α).run tape = some (.error e, rest) ↔ x = .error e ∧ tape = rest := by
  rw [show (liftM x : Sealing α).run tape = some (x, tape) from rfl, Option.some.injEq,
    Prod.mk.injEq]

/-- Behind a check that passes the rest goes on with all of the tape. -/
theorem lift_bind_of_ok {x : Except Error α} {f : α → Sealing β} {a : α} (h : x = .ok a) :
    (liftM x >>= f).run tape = (f a).run tape := by
  rw [h]
  rfl

/-- A draw does not fail. -/
theorem draw_eq_ok {x : Draw α} {a : α} :
    (liftM x : ExceptT ε Draw α).run tape = some (.ok a, rest) ↔ x tape = some (a, rest) := by
  rw [show (liftM x : ExceptT ε Draw α).run tape
    = (x tape).bind fun p => some (.ok p.1, p.2) from rfl, Option.bind_eq_some_iff]
  simp [Prod.ext_iff]

theorem draw_eq_error {x : Draw α} {e : Error} :
    (liftM x : Sealing α).run tape = some (.error e, rest) ↔ False := by
  rw [show (liftM x : Sealing α).run tape = (x tape).bind fun p => some (.ok p.1, p.2) from rfl,
    Option.bind_eq_some_iff]
  simp

/-- Behind a draw the rest goes on with what is left of the tape. -/
theorem draw_bind_of_some {x : Draw α} {f : α → Sealing β} {a : α}
    (h : x tape = some (a, rest)) : (liftM x >>= f).run tape = (f a).run rest := by
  rw [show (liftM x >>= f).run tape = (x tape).bind fun p => (f p.1).run p.2 from
    Option.bind_assoc .., h]
  rfl

/-! ### Where there is a result -/

/-- On every tape with `n` octets the operation has a result, and takes no more than these. -/
def Within (n : Nat) (x : Sealing α) : Prop :=
  ∀ tape : Tape, n ≤ tape.length →
    ∃ result rest, x.run tape = some (result, rest) ∧ tape.length ≤ rest.length + n

theorem within_lift (x : Except Error α) : Within 0 (liftM x : Sealing α) :=
  fun tape _ => ⟨x, tape, rfl, Nat.le_refl _⟩

theorem within_pure (a : α) : Within 0 (pure a : Sealing α) := within_lift (.ok a)

theorem within_draw {n : Nat} {x : Draw α} (h : Draw.Takes n x) :
    Within n (liftM x : Sealing α) := by
  intro tape htape
  obtain ⟨a, ha⟩ := h tape htape
  refine ⟨.ok a, _, draw_eq_ok.2 ha, ?_⟩
  rw [List.length_drop]
  omega

theorem Within.bind {m n : Nat} {x : Sealing α} {f : α → Sealing β} (hx : Within m x)
    (hf : ∀ a, Within n (f a)) : Within (m + n) (x >>= f) := by
  intro tape htape
  obtain ⟨result, t, hrun, hleft⟩ := hx tape (by omega)
  cases result with
  | error e => exact ⟨.error e, t, bind_of_error hrun, by omega⟩
  | ok a =>
    obtain ⟨result, rest, hrest, hleft'⟩ := hf a t (by omega)
    refine ⟨result, rest, ?_, by omega⟩
    rw [ExceptT.run_bind, Draw.bind_eq_some]
    exact ⟨.ok a, t, hrun, hrest⟩

/-- A check ends an operation, or leaves it to the rest. -/
theorem exists_lift_bind {x : Except Error α} {f : α → Sealing β}
    (hf : ∀ a, x = .ok a → ∃ result rest, (f a).run tape = some (result, rest)) :
    ∃ result rest, (liftM x >>= f).run tape = some (result, rest) := by
  cases x with
  | error e => exact ⟨.error e, tape, rfl⟩
  | ok a => exact hf a rfl

/-- Behind a draw, which may take any number of octets, there has to be room for the rest. -/
theorem exists_draw_bind {n : Nat} {x : Draw α} {f : α → Sealing β} {a : α}
    (hdraw : x tape = some (a, rest)) (hf : Within n (f a)) (hrest : n ≤ rest.length) :
    ∃ result rest', (liftM x >>= f).run tape = some (result, rest') := by
  obtain ⟨result, rest', hrun, -⟩ := hf rest hrest
  exact ⟨result, rest', (draw_bind_of_some hdraw).trans hrun⟩

/-! ### Whether and how it fails -/

/-- The operation does not fail, whatever is on the tape. -/
def Unfailing (x : Sealing α) : Prop := ∀ tape e rest, x.run tape ≠ some (.error e, rest)

theorem unfailing_lift {x : Except Error α} (h : ∀ e, x ≠ .error e) :
    Unfailing (liftM x : Sealing α) :=
  fun _ e _ hrun => h e (lift_eq_error.1 hrun).1

theorem unfailing_pure (a : α) : Unfailing (pure a : Sealing α) :=
  unfailing_lift (x := .ok a) fun _ h => by cases h

theorem unfailing_draw (x : Draw α) : Unfailing (liftM x : Sealing α) :=
  fun _ _ _ => draw_eq_error.1

/-- A step that does not fail leaves it to what comes behind it to fail. -/
theorem Unfailing.bind {x : Sealing α} {f : α → Sealing β} (hx : Unfailing x)
    (hf : ∀ a t t', x.run t = some (.ok a, t') → Unfailing (f a)) : Unfailing (x >>= f) := by
  intro tape e rest hrun
  rcases bind_eq_error.1 hrun with hfailed | ⟨a, t, hok, hfailed⟩
  · exact hx _ _ _ hfailed
  · exact hf a _ _ hok _ _ _ hfailed

/-- So does a check that passes. -/
theorem unfailing_lift_bind {x : Except Error α} {f : α → Sealing β} {a : α} (hx : x = .ok a)
    (hf : Unfailing (f a)) : Unfailing (liftM x >>= f) := by
  intro tape e rest
  rw [lift_bind_of_ok hx]
  exact hf tape e rest

/-- Wherever the operation has a result, it fails with `e`. -/
def FailsWith (x : Sealing α) (e : Error) : Prop :=
  ∀ tape result rest, x.run tape = some (result, rest) → result = .error e

theorem FailsWith.bind {x : Sealing α} {e : Error} (h : FailsWith x e) (f : α → Sealing β) :
    FailsWith (x >>= f) e := by
  intro tape result rest hrun
  rw [ExceptT.run_bind, Draw.bind_eq_some] at hrun
  obtain ⟨r, t, hx, hf⟩ := hrun
  obtain rfl := h tape r t hx
  exact (Draw.pure_eq_some.1 hf).1.symm

/-- A check that fails. -/
theorem failsWith_lift_bind {x : Except Error α} {e : Error} (h : x = .error e)
    (f : α → Sealing β) : FailsWith (liftM x >>= f) e :=
  FailsWith.bind (fun _ _ _ hrun => by cases hrun; exact h) f

/-- Behind a step that does not fail it is the rest that fails. -/
theorem failsWith_bind {x : Sealing α} {f : α → Sealing β} {e : Error} (hx : Unfailing x)
    (h : ∀ a tape rest, x.run tape = some (.ok a, rest) → FailsWith (f a) e) :
    FailsWith (x >>= f) e := by
  intro tape result rest hrun
  rw [ExceptT.run_bind, Draw.bind_eq_some] at hrun
  obtain ⟨r, t, hrun, hf⟩ := hrun
  cases r with
  | error e' => exact (hx tape e' t hrun).elim
  | ok a => exact h a tape t hrun t result rest hf

/-- Behind a check that passes it is the rest that fails. -/
theorem failsWith_lift_bind_of_ok {x : Except Error α} {f : α → Sealing β} {a : α} {e : Error}
    (hx : x = .ok a) (h : FailsWith (f a) e) : FailsWith (liftM x >>= f) e := by
  intro tape result rest hrun
  rw [lift_bind_of_ok hx] at hrun
  exact h tape result rest hrun

/-- Behind a draw it is the rest that fails. -/
theorem failsWith_draw_bind {x : Draw α} {f : α → Sealing β} {e : Error}
    (h : ∀ a, FailsWith (f a) e) : FailsWith (liftM x >>= f) e :=
  failsWith_bind (unfailing_draw x) fun a _ _ _ => h a

end Sealing

end SealedEnvelope
