import SealedEnvelope.Config.Registry
import SealedEnvelope.Proofs.Sequence

set_option autoImplicit false

/-! # Registries as maps

The operations of a registry are taken as calls that are answered one after the other. Whatever is
called, a name has the configuration of its last successful registration, if it was not unregistered
since (`LastRegistered`), and every answer is the one that the calls and answers before it ask for
(`Answered`). So a registry is a map from names to configurations, and nothing else can be told from
it (`refines_map`). -/

namespace SealedEnvelope.Registry

/-! ## Calls and answers -/

/-- What a registry is asked for. -/
inductive Call where
  | register (key : String) (overrides : Json)
  | registerDerived (key baseKey : String) (overrides : Json)
  | registerConfig (key : String) (config : Config)
  | unregister (key : String)
  | get (key : String)
  | contains (key : String)
  | keys
  | fallback

/-- What a registry answers. A call fails with an error, or because a build has ended in an
    overflow. -/
inductive Answer where
  | config (config : Config)
  | flag (value : Bool)
  | names (names : List String)
  | failed (failure : Config.Failure Error)

/-- The name that a call registers. -/
def Call.registers? : Call → Option String
  | .register key _ | .registerDerived key _ _ | .registerConfig key _ => some key
  | _ => none

/-- The name whose configuration a call may change. -/
def Call.subject? : Call → Option String
  | .unregister key => some key
  | call => call.registers?

/-- A registration is answered with what is then found under the name; one that fails leaves the
    registry as it was. -/
def registered (r : Registry) (key : String) :
    Except (Config.Failure Error) Registry → Answer × Registry
  | .ok r' => (.config (r'.get key), r')
  | .error failure => (.failed failure, r)

/-- The answer to a call, and the registry behind it. -/
def step (r : Registry) : Call → Answer × Registry
  | .register key overrides => r.registered key (r.register key overrides)
  | .registerDerived key baseKey overrides =>
    r.registered key (r.registerDerived key baseKey overrides)
  | .registerConfig key config =>
    r.registered key ((r.registerConfig key config).mapError .returned)
  | .unregister key =>
    match r.unregister key with
    | .ok (removed, r') => (.flag removed, r')
    | .error e => (.failed (.returned e), r)
  | .get key => (.config (r.get key), r)
  | .contains key => (.flag (r.contains key), r)
  | .keys => (.names r.keys, r)
  | .fallback => (.config r.default, r)

/-- A call and its answer. -/
structure Event where
  call : Call
  answer : Answer

/-- Calls and how they are answered one after the other. -/
def history (r : Registry) : List Call → List Event
  | [] => []
  | call :: rest => ⟨call, (r.step call).1⟩ :: history (r.step call).2 rest

/-- The registry behind some calls. -/
def behind (r : Registry) : List Call → Registry
  | [] => r
  | call :: rest => behind (r.step call).2 rest

/-! ## What the history asks for -/

/-- A successful registration of a configuration under a name. -/
def Event.Registers (e : Event) (key : String) (config : Config) : Prop :=
  e.call.registers? = some key ∧ e.answer = .config config

/-- A successful removal of a name. -/
def Event.Removes (e : Event) (key : String) : Prop :=
  e.call = .unregister key ∧ ∃ removed, e.answer = .flag removed

/-- A success that settles what a name stands for. -/
def Event.Settles (e : Event) (key : String) : Prop :=
  (∃ config, e.Registers key config) ∨ e.Removes key

/-- The configuration of a name's last successful registration, with no successful removal since. -/
def LastRegistered (h : List Event) (key : String) (config : Config) : Prop :=
  ∃ before e after, h = before ++ e :: after ∧ e.Registers key config
    ∧ ∀ e' ∈ after, ¬e'.Settles key

/-- A name that is registered. -/
def Live (h : List Event) (key : String) : Prop := ∃ config, LastRegistered h key config

/-- What a name stands for: what was last registered, or the default. -/
def StandsFor (fallback : Config) (h : List Event) (key : String) (config : Config) : Prop :=
  LastRegistered h key config ∨ ¬Live h key ∧ config = fallback

/-- The answer to a registration, given what was built for it. -/
def registration (key : String) (built : Except (Config.Failure Error) Config) : Answer :=
  if key = defaultKey then .failed (.returned (.reservedKey key))
  else
    match built with
    | .ok config => .config config
    | .error failure => .failed failure

/-- The answers that a map with a default gives behind a history. -/
def Answered (fallback : Config) (h : List Event) : Call → Answer → Prop
  | .register key overrides, answer =>
    answer = registration key (fallback.buildFrom overrides)
  | .registerDerived key baseKey overrides, answer =>
    ∃ base, StandsFor fallback h baseKey base
      ∧ answer = registration key (base.buildFrom overrides)
  | .registerConfig key config, answer => answer = registration key (.ok config)
  | .unregister key, answer =>
    (key = defaultKey → answer = .failed (.returned (.reservedKey key)))
      ∧ (key ≠ defaultKey → ∃ removed, answer = .flag removed ∧ (removed = true ↔ Live h key))
  | .get key, answer => ∃ config, StandsFor fallback h key config ∧ answer = .config config
  | .contains key, answer =>
    ∃ found, answer = .flag found ∧ (found = true ↔ key = defaultKey ∨ Live h key)
  | .keys, answer =>
    ∃ names, answer = .names names ∧ names.Pairwise (· < ·) ∧ ∀ key, key ∈ names ↔ Live h key
  | .fallback, answer => answer = .config fallback

/-- What was last registered behind one event more. -/
theorem lastRegistered_concat {h : List Event} {e : Event} {key : String} {config : Config} :
    LastRegistered (h ++ [e]) key config
      ↔ e.Registers key config ∨ ¬e.Settles key ∧ LastRegistered h key config := by
  constructor
  · rintro ⟨before, e', after, heq, hregisters, hafter⟩
    rcases List.eq_nil_or_concat after with rfl | ⟨after, last, rfl⟩
    · obtain ⟨rfl, hlast⟩ := List.append_inj' heq rfl
      obtain ⟨rfl, -⟩ := List.cons.inj hlast
      exact .inl hregisters
    · rw [List.concat_eq_append, ← List.cons_append, ← List.append_assoc] at heq
      obtain ⟨rfl, hlast⟩ := List.append_inj' heq rfl
      obtain ⟨rfl, -⟩ := List.cons.inj hlast
      rw [List.concat_eq_append, List.forall_mem_append] at hafter
      exact .inr ⟨hafter.2 e (List.mem_singleton_self e), before, e', after, rfl, hregisters,
        hafter.1⟩
  · rintro (hregisters | ⟨hsettles, before, e', after, rfl, hregisters, hafter⟩)
    · exact ⟨h, e, [], rfl, hregisters, by simp⟩
    · refine ⟨before, e', after ++ [e], by simp, hregisters, ?_⟩
      rw [List.forall_mem_append]
      exact ⟨hafter, by simpa using hsettles⟩

/-! ## One call -/

variable {r : Registry} {key : String} {call : Call}

/-- The registry with a configuration under a name. -/
def put (r : Registry) (key : String) (config : Config) : Registry :=
  { r with entries := r.entries.insert key config }

/-- The registry without a name. -/
def drop (r : Registry) (key : String) : Registry := { r with entries := r.entries.erase key }

theorem get_of_ne (r : Registry) (h : key ≠ defaultKey) :
    r.get key = (r.entries.get? key).getD r.default :=
  if_neg h

theorem get_put_self (r : Registry) (h : key ≠ defaultKey) (config : Config) :
    (r.put key config).get key = config := by
  rw [get_of_ne _ h, put, NameMap.get?_insert, if_pos rfl, Option.getD_some]

theorem checkKey_bind {α : Type} (next : Except Error α) :
    (do checkKey key; next) = if key = defaultKey then .error (.reservedKey key) else next := by
  unfold checkKey
  split
  · rfl
  · rfl

theorem liftM_checkKey_bind {α : Type} (next : Except (Config.Failure Error) α) :
    (do checkKey key; next)
      = if key = defaultKey then .error (.returned (.reservedKey key)) else next := by
  unfold checkKey
  split
  · rfl
  · rfl

theorem registerConfig_eq (r : Registry) (key : String) (config : Config) :
    r.registerConfig key config
      = if key = defaultKey then .error (.reservedKey key) else .ok (r.put key config) :=
  checkKey_bind _

/-- The answer to a registration for which something was built, and the registry behind it. -/
def store (r : Registry) (key : String) (built : Except (Config.Failure Error) Config) :
    Answer × Registry :=
  match registration key built with
  | .config config => (.config config, r.put key config)
  | answer => (answer, r)

theorem store_reserved (h : key = defaultKey) (built : Except (Config.Failure Error) Config) :
    r.store key built = (.failed (.returned (.reservedKey key)), r) := by
  unfold store registration
  rw [if_pos h]

theorem store_error (h : key ≠ defaultKey) (failure : Config.Failure Error) :
    r.store key (.error failure) = (.failed failure, r) := by
  unfold store registration
  rw [if_neg h]

theorem store_ok (h : key ≠ defaultKey) (config : Config) :
    r.store key (.ok config) = (.config config, r.put key config) := by
  unfold store registration
  rw [if_neg h]

/-- What is answered to a registration is what was built. -/
theorem fst_store (r : Registry) (key : String) (built : Except (Config.Failure Error) Config) :
    (r.store key built).1 = registration key built := by
  unfold store
  split
  · next heq => exact heq.symm
  · rfl

/-- A registration keeps what it is answered with under its name, or nothing if it fails. -/
theorem store_cases (r : Registry) (key : String) (built : Except (Config.Failure Error) Config) :
    (∃ config, key ≠ defaultKey ∧ built = .ok config
        ∧ r.store key built = (.config config, r.put key config))
      ∨ ∃ failure, r.store key built = (.failed failure, r) := by
  by_cases hkey : key = defaultKey
  · exact .inr ⟨_, store_reserved hkey built⟩
  · cases built with
    | ok config => exact .inl ⟨config, hkey, rfl, store_ok hkey config⟩
    | error failure => exact .inr ⟨failure, store_error hkey failure⟩

theorem step_registerConfig (r : Registry) (key : String) (config : Config) :
    r.step (.registerConfig key config) = r.store key (.ok config) := by
  simp only [step, registerConfig_eq]
  by_cases hkey : key = defaultKey
  · rw [if_pos hkey, store_reserved hkey]
    rfl
  · rw [if_neg hkey, store_ok hkey]
    show (Answer.config ((r.put key config).get key), r.put key config) = _
    rw [get_put_self r hkey]

/-- The name is checked before anything is built. -/
theorem registered_built (r : Registry) (key : String)
    (built : Except (Config.Failure Error) Config) :
    r.registered key (do checkKey key; r.registerConfig key (← built)) = r.store key built := by
  rw [liftM_checkKey_bind]
  by_cases hkey : key = defaultKey
  · rw [if_pos hkey, store_reserved hkey]
    rfl
  · rw [if_neg hkey]
    cases built with
    | error failure =>
      rw [store_error hkey]
      rfl
    | ok config => exact step_registerConfig r key config

theorem step_register (r : Registry) (key : String) (overrides : Json) :
    r.step (.register key overrides) = r.store key (r.default.buildFrom overrides) :=
  r.registered_built key _

theorem step_registerDerived (r : Registry) (key baseKey : String) (overrides : Json) :
    r.step (.registerDerived key baseKey overrides)
      = r.store key ((r.get baseKey).buildFrom overrides) :=
  r.registered_built key _

theorem step_unregister (r : Registry) (key : String) :
    r.step (.unregister key)
      = if key = defaultKey then (.failed (.returned (.reservedKey key)), r)
        else (.flag (r.entries.contains key), r.drop key) := by
  simp only [step, unregister, checkKey_bind]
  by_cases hkey : key = defaultKey
  · rw [if_pos hkey, if_pos hkey]
  · rw [if_neg hkey, if_neg hkey]
    rfl

/-- Every registration comes down to something that is built. -/
theorem exists_store (r : Registry) (h : call.registers? = some key) :
    ∃ built, r.step call = r.store key built := by
  cases call with
  | register key overrides =>
    cases h
    exact ⟨_, r.step_register key overrides⟩
  | registerDerived key baseKey overrides =>
    cases h
    exact ⟨_, r.step_registerDerived key baseKey overrides⟩
  | registerConfig key config =>
    cases h
    exact ⟨_, r.step_registerConfig key config⟩
  | _ => cases h

theorem Event.Settles.subject?_eq {e : Event} (h : e.Settles key) : e.call.subject? = some key := by
  obtain ⟨call, answer⟩ := e
  rcases h with ⟨config, hregisters, -⟩ | ⟨hremoves, -⟩
  · cases call with
    | unregister key => cases hregisters
    | _ => exact hregisters
  · rw [hremoves]
    rfl

theorem Event.not_settles_of_failed {failure : Config.Failure Error} :
    ¬Event.Settles ⟨call, .failed failure⟩ key := by
  intro h
  rcases h with ⟨config, -, hanswer⟩ | ⟨-, removed, hanswer⟩
  · cases hanswer
  · cases hanswer

theorem Event.not_settles_of_ne {e : Event} {other : String} (h : e.Settles other)
    (hne : other ≠ key) : ¬e.Settles key := by
  intro h'
  exact hne (Option.some.inj (h.subject?_eq.symm.trans h'.subject?_eq))

/-- What a call can do: keep a configuration under a name that is not reserved, remove such a name,
    or leave the registry as it is and settle nothing. -/
theorem step_cases (r : Registry) (call : Call) :
    (∃ key config, call.registers? = some key ∧ key ≠ defaultKey
        ∧ r.step call = (.config config, r.put key config))
      ∨ (∃ key, call = .unregister key ∧ key ≠ defaultKey
        ∧ r.step call = (.flag (r.entries.contains key), r.drop key))
      ∨ ∃ answer, r.step call = (answer, r) ∧ ∀ key, ¬Event.Settles ⟨call, answer⟩ key := by
  cases hregisters : call.registers? with
  | some key =>
    obtain ⟨built, hstep⟩ := r.exists_store hregisters
    rcases r.store_cases key built with ⟨config, hkey, -, hstore⟩ | ⟨e, hstore⟩
    · exact .inl ⟨key, config, rfl, hkey, hstep.trans hstore⟩
    · exact .inr (.inr ⟨_, hstep.trans hstore, fun _ => Event.not_settles_of_failed⟩)
  | none =>
    right
    cases call with
    | unregister key =>
      have hstep := r.step_unregister key
      by_cases hkey : key = defaultKey
      · rw [if_pos hkey] at hstep
        exact .inr ⟨_, hstep, fun _ => Event.not_settles_of_failed⟩
      · rw [if_neg hkey] at hstep
        exact .inl ⟨key, rfl, hkey, hstep⟩
    | register | registerDerived | registerConfig => cases hregisters
    | get | contains | keys | fallback =>
      refine .inr ⟨_, rfl, ?_⟩
      intro key h
      cases h.subject?_eq

/-! ## What is under a name -/

/-- Under a name is what a call has registered there, or what was there unless the call settles the
    name. -/
theorem get?_step (r : Registry) (call : Call) (key : String) (config : Config) :
    (r.step call).2.entries.get? key = some config
      ↔ Event.Registers ⟨call, (r.step call).1⟩ key config
        ∨ ¬Event.Settles ⟨call, (r.step call).1⟩ key ∧ r.entries.get? key = some config := by
  rcases r.step_cases call with ⟨other, kept, hcall, -, hstep⟩ | ⟨other, rfl, -, hstep⟩
    | ⟨answer, hstep, hnot⟩
  · have hsettles : Event.Settles ⟨call, .config kept⟩ other := .inl ⟨kept, hcall, rfl⟩
    rw [hstep, put, NameMap.get?_insert]
    by_cases hkey : other = key
    · subst hkey
      simp [Event.Registers, hcall, hsettles]
    · have hnot := Event.not_settles_of_ne hsettles hkey
      simp [Event.Registers, hcall, hkey, hnot]
  · have hsettles : Event.Settles ⟨.unregister other, .flag (r.entries.contains other)⟩ other :=
      .inr ⟨rfl, _, rfl⟩
    rw [hstep, drop, NameMap.get?_erase]
    by_cases hkey : other = key
    · subst hkey
      simp [Event.Registers, hsettles]
    · have hnot := Event.not_settles_of_ne hsettles hkey
      simp [Event.Registers, hkey, hnot]
  · rw [hstep]
    constructor
    · intro h
      exact .inr ⟨hnot key, h⟩
    · rintro (hregisters | ⟨-, h⟩)
      · exact absurd (.inl ⟨config, hregisters⟩) (hnot key)
      · exact h

/-- The default is never replaced. -/
theorem default_step (r : Registry) (call : Call) : (r.step call).2.default = r.default := by
  rcases r.step_cases call with ⟨_, _, -, -, hstep⟩ | ⟨_, -, -, hstep⟩ | ⟨_, hstep, -⟩ <;>
    rw [hstep] <;> rfl

/-- A call that fails changes nothing. -/
theorem step_of_failed {failure : Config.Failure Error} (h : (r.step call).1 = .failed failure) :
    (r.step call).2 = r := by
  rcases r.step_cases call with ⟨_, _, -, -, hstep⟩ | ⟨_, -, -, hstep⟩ | ⟨_, hstep, -⟩
  · rw [hstep] at h
    cases h
  · rw [hstep] at h
    cases h
  · rw [hstep]

/-- A call changes nothing under other names than its own. -/
theorem get_step_of_ne (h : call.subject? ≠ some key) : (r.step call).2.get key = r.get key := by
  have hentry : (r.step call).2.entries.get? key = r.entries.get? key := by
    refine Option.ext fun config => ?_
    have hnot : ¬Event.Settles ⟨call, (r.step call).1⟩ key := fun hs => h hs.subject?_eq
    have hregisters : ¬Event.Registers ⟨call, (r.step call).1⟩ key config :=
      fun hr => hnot (.inl ⟨config, hr⟩)
    rw [get?_step]
    simp [hnot, hregisters]
  rw [get, get, hentry, default_step]

/-- Nothing comes to be under the reserved name. -/
theorem get?_step_reserved (h : r.entries.get? defaultKey = none) (call : Call) :
    (r.step call).2.entries.get? defaultKey = none := by
  rcases r.step_cases call with ⟨_, _, -, hkey, hstep⟩ | ⟨_, -, hkey, hstep⟩ | ⟨_, hstep, -⟩
  · rw [hstep, put, NameMap.get?_insert, if_neg hkey, h]
  · rw [hstep, drop, NameMap.get?_erase, if_neg hkey, h]
  · rw [hstep, h]

/-! ## Runs -/

/-- A registry holds what its history asks for. -/
structure Keeps (fallback : Config) (h : List Event) (r : Registry) : Prop where
  default_eq : r.default = fallback
  entry_iff : ∀ key config, r.entries.get? key = some config ↔ LastRegistered h key config
  unreserved : r.entries.get? defaultKey = none

theorem keeps_withDefault (fallback : Config) : Keeps fallback [] (withDefault fallback) := by
  refine ⟨rfl, ?_, rfl⟩
  intro key config
  simp [withDefault, NameMap.get?, NameMap.empty, NameMap.findIn, LastRegistered]

namespace Keeps

variable {fallback : Config} {h : List Event}

/-- One call keeps the registry in step with the history. -/
theorem step (hr : Keeps fallback h r) (call : Call) :
    Keeps fallback (h ++ [⟨call, (r.step call).1⟩]) (r.step call).2 where
  default_eq := (default_step r call).trans hr.default_eq
  entry_iff := by
    intro key config
    rw [get?_step, lastRegistered_concat, hr.entry_iff]
  unreserved := get?_step_reserved hr.unreserved call

/-- So do any number of them. -/
theorem run (hr : Keeps fallback h r) (calls : List Call) :
    Keeps fallback (h ++ history r calls) (r.behind calls) := by
  induction calls generalizing h r with
  | nil =>
    rw [history, List.append_nil]
    exact hr
  | cons call rest ih =>
    have hrest := ih (hr.step call)
    rw [List.append_assoc] at hrest
    exact hrest

theorem live_iff (hr : Keeps fallback h r) :
    Live h key ↔ ∃ config, r.entries.get? key = some config :=
  exists_congr fun config => (hr.entry_iff key config).symm

theorem not_live_defaultKey (hr : Keeps fallback h r) : ¬Live h defaultKey := by
  rw [hr.live_iff, hr.unreserved]
  simp

/-- What is found under a name is what the name stands for. -/
theorem get_eq_iff (hr : Keeps fallback h r) {config : Config} :
    r.get key = config ↔ StandsFor fallback h key config := by
  unfold StandsFor
  by_cases hkey : key = defaultKey
  · have hnot : ¬LastRegistered h key config := fun hlast =>
      hr.not_live_defaultKey ⟨config, hkey ▸ hlast⟩
    rw [get, if_pos hkey, hr.default_eq, hkey]
    simp [hkey ▸ hnot, hr.not_live_defaultKey, eq_comm]
  · rw [get_of_ne r hkey, hr.live_iff, ← hr.entry_iff, hr.default_eq]
    cases r.entries.get? key with
    | none => simp [eq_comm]
    | some found => simp

theorem mem_keys_iff (hr : Keeps fallback h r) : key ∈ r.keys ↔ Live h key :=
  NameMap.mem_keys_iff.trans hr.live_iff.symm

theorem contains_iff (hr : Keeps fallback h r) :
    r.contains key = true ↔ key = defaultKey ∨ Live h key := by
  rw [hr.live_iff, ← NameMap.contains_iff, contains]
  simp

/-- Every call is answered as the history asks for. -/
theorem answered (hr : Keeps fallback h r) (call : Call) :
    Answered fallback h call (r.step call).1 := by
  cases call with
  | register key overrides =>
    unfold Answered
    rw [step_register, fst_store, hr.default_eq]
  | registerDerived key baseKey overrides =>
    refine ⟨r.get baseKey, hr.get_eq_iff.1 rfl, ?_⟩
    rw [step_registerDerived, fst_store]
  | registerConfig key config =>
    unfold Answered
    rw [step_registerConfig, fst_store]
  | unregister key =>
    rw [step_unregister]
    constructor
    · intro hkey
      rw [if_pos hkey]
    · intro hkey
      rw [if_neg hkey]
      exact ⟨_, rfl, NameMap.contains_iff.trans hr.live_iff.symm⟩
  | get key => exact ⟨_, hr.get_eq_iff.1 rfl, rfl⟩
  | contains key => exact ⟨_, rfl, hr.contains_iff⟩
  | keys => exact ⟨_, rfl, r.entries.ascending_keys, fun _ => hr.mem_keys_iff⟩
  | fallback => exact congrArg Answer.config hr.default_eq

end Keeps

theorem history_append (r : Registry) (calls more : List Call) :
    history r (calls ++ more) = history r calls ++ history (r.behind calls) more := by
  induction calls generalizing r with
  | nil => rfl
  | cons call rest ih =>
    rw [List.cons_append, history, history, ih, List.cons_append]
    rfl

/-- **A registry is a map from names to configurations.** Whatever is called of a new registry, a
    name stands for the configuration of its last successful registration, if no removal came since,
    and for the default otherwise. The default stays what it was. The names are listed in ascending
    order and are those that are live, which the reserved one never is. Every further call is
    answered as the calls and answers before it ask for. If it fails it changes nothing, and it
    changes nothing under other names than its own; the answers given before stay as they are. -/
theorem refines_map (fallback : Config) (calls : List Call) :
    let h := history (withDefault fallback) calls
    let r := (withDefault fallback).behind calls
    (∀ key config, r.get key = config ↔ StandsFor fallback h key config)
      ∧ r.get defaultKey = fallback ∧ r.default = fallback
      ∧ r.keys.Pairwise (· < ·) ∧ (∀ key, key ∈ r.keys ↔ Live h key) ∧ defaultKey ∉ r.keys
      ∧ (∀ key, r.contains key = true ↔ key = defaultKey ∨ key ∈ r.keys)
      ∧ ∀ call, Answered fallback h call (r.step call).1
        ∧ (∀ e, (r.step call).1 = .failed e → (r.step call).2 = r)
        ∧ (∀ key, call.subject? ≠ some key → (r.step call).2.get key = r.get key)
        ∧ ∀ more, history (withDefault fallback) (calls ++ call :: more)
          = h ++ ⟨call, (r.step call).1⟩ :: history (r.step call).2 more := by
  intro h r
  have hr : Keeps fallback h r := (keeps_withDefault fallback).run calls
  refine ⟨fun _ _ => hr.get_eq_iff, ?_, hr.default_eq, r.entries.ascending_keys,
    fun _ => hr.mem_keys_iff, ?_, ?_, ?_⟩
  · rw [get, if_pos rfl, hr.default_eq]
  · rw [hr.mem_keys_iff]
    exact hr.not_live_defaultKey
  · intro key
    rw [hr.mem_keys_iff]
    exact hr.contains_iff
  · intro call
    refine ⟨hr.answered call, fun _ => step_of_failed, fun _ => get_step_of_ne, ?_⟩
    intro more
    exact history_append _ calls (call :: more)

end SealedEnvelope.Registry
