import SealedEnvelope.Config.Rules

set_option autoImplicit false

/-! # Derivation paths, as they are written

A well-formed derivation path is `m` and the texts of one or more components. The reader of the
rules goes through a path one character at a time; what may follow each of its states is written out
in the same terms (`PathState.Follows`), one character at a time (`follows_cons`) and then for whole
paths (`isDerivationPath_iff`). -/

namespace SealedEnvelope

/-- A component of a derivation path: ASCII digits, hardened or not. -/
structure PathComponent where
  digits : List Char
  hardened : Bool
  nonempty : digits ≠ []
  decimal : ∀ c ∈ digits, c.isDigit = true

namespace PathComponent

/-- A hardened component is marked with an apostrophe. -/
def mark (hardened : Bool) : List Char := if hardened then ['\x27'] else []

/-- The component behind its slash. -/
def text (c : PathComponent) : List Char := '/' :: (c.digits ++ mark c.hardened)

/-- The texts of components, one behind the other. -/
def texts (components : List PathComponent) : List Char := components.flatMap text

@[simp] theorem texts_nil : texts [] = [] := rfl

@[simp] theorem texts_cons (c : PathComponent) (rest : List PathComponent) :
    texts (c :: rest) = '/' :: (c.digits ++ mark c.hardened ++ texts rest) := by
  simp [texts, text]

end PathComponent

open PathComponent

/-- A path of `m` and one or more components. -/
def WrittenPath (path : String) : Prop :=
  ∃ components ≠ [], path.toList = 'm' :: texts components

namespace PathState

/-- What may stand behind the digits of a component that are already there. -/
def EndsComponent (cs : List Char) : Prop :=
  ∃ digits : List Char, (∀ c ∈ digits, c.isDigit = true)
    ∧ ∃ hardened rest, cs = digits ++ mark hardened ++ texts rest

/-- What may follow a state up to the end of a path. -/
def Follows : PathState → List Char → Prop
  | start, cs => ∃ components ≠ [], cs = 'm' :: texts components
  | root, cs => ∃ components ≠ [], cs = texts components
  | slash, cs => ∃ c rest, cs = c :: rest ∧ c.isDigit = true ∧ EndsComponent rest
  | digits, cs => EndsComponent cs
  | hardened, cs => ∃ components, cs = texts components

theorem follows_nil (state : PathState) : state.Follows [] ↔ state.isFinal = true := by
  cases state with
  | start => simp [Follows, isFinal]
  | root =>
    simp only [Follows, isFinal]
    constructor
    · rintro ⟨_ | ⟨c, rest⟩, hne, h⟩
      · exact absurd rfl hne
      · simp at h
    · simp
  | slash => simp [Follows, isFinal]
  | digits => simpa [Follows, isFinal] using ⟨[], by simp, false, [], rfl⟩
  | hardened => simpa [Follows, isFinal] using ⟨[], rfl⟩

/-- Components begin with a slash, which the digits of the first one follow. -/
theorem cons_eq_texts {c : Char} {cs : List Char} :
    (∃ components, c :: cs = texts components) ↔ c = '/' ∧ slash.Follows cs := by
  constructor
  · rintro ⟨_ | ⟨⟨_ | ⟨d, digits⟩, marked, hne, hdecimal⟩, rest⟩, h⟩
    · simp at h
    · exact absurd rfl hne
    · rw [List.forall_mem_cons] at hdecimal
      rw [texts_cons, List.cons.injEq] at h
      exact ⟨h.1, d, _, h.2, hdecimal.1, digits, hdecimal.2, marked, rest, rfl⟩
  · rintro ⟨rfl, d, _, rfl, hd, digits, hdecimal, marked, rest, rfl⟩
    have hall : ∀ c ∈ d :: digits, c.isDigit = true := List.forall_mem_cons.2 ⟨hd, hdecimal⟩
    exact ⟨⟨d :: digits, marked, by simp, hall⟩ :: rest, by simp⟩

/-- What follows a digit: another digit, the mark of a hardened component or the next one. -/
theorem cons_endsComponent {c : Char} {cs : List Char} :
    EndsComponent (c :: cs)
      ↔ c.isDigit = true ∧ EndsComponent cs
        ∨ c = '\x27' ∧ hardened.Follows cs
        ∨ c = '/' ∧ slash.Follows cs := by
  constructor
  · rintro ⟨_ | ⟨d, digits⟩, hdecimal, marked, rest, h⟩
    · cases marked with
      | false => exact .inr (.inr (cons_eq_texts.1 ⟨rest, h⟩))
      | true =>
        obtain ⟨rfl, rfl⟩ := List.cons.inj h
        exact .inr (.inl ⟨rfl, rest, rfl⟩)
    · rw [List.forall_mem_cons] at hdecimal
      obtain ⟨rfl, rfl⟩ := List.cons.inj h
      exact .inl ⟨hdecimal.1, digits, hdecimal.2, marked, rest, rfl⟩
  · rintro (⟨hc, digits, hdecimal, marked, rest, rfl⟩ | ⟨rfl, rest, rfl⟩ | h)
    · exact ⟨c :: digits, List.forall_mem_cons.2 ⟨hc, hdecimal⟩, marked, rest, rfl⟩
    · exact ⟨[], by simp, true, rest, rfl⟩
    · obtain ⟨components, hcomponents⟩ := cons_eq_texts.2 h
      exact ⟨[], by simp, false, components, hcomponents⟩

/-- A character may follow a state if the reader has a next state for it, and then the rest follows
    that one. -/
theorem follows_cons (state : PathState) (c : Char) (cs : List Char) :
    state.Follows (c :: cs) ↔ ∃ behind, state.next c = some behind ∧ behind.Follows cs := by
  cases state with
  | start =>
    by_cases hc : c = 'm' <;> simp [Follows, next, hc]
  | root =>
    have hne : root.Follows (c :: cs) ↔ ∃ components, c :: cs = texts components := by
      constructor
      · rintro ⟨components, -, h⟩
        exact ⟨components, h⟩
      · rintro ⟨components, h⟩
        refine ⟨components, ?_, h⟩
        rintro rfl
        simp at h
    rw [hne, cons_eq_texts]
    by_cases hc : c = '/' <;> simp [next, hc]
  | slash =>
    have hcons : slash.Follows (c :: cs) ↔ c.isDigit = true ∧ EndsComponent cs := by
      constructor
      · rintro ⟨_, _, h, hdigit, hends⟩
        obtain ⟨rfl, rfl⟩ := List.cons.inj h
        exact ⟨hdigit, hends⟩
      · rintro ⟨hdigit, hends⟩
        exact ⟨c, cs, rfl, hdigit, hends⟩
    rw [hcons]
    by_cases hc : c.isDigit = true <;> simp [next, hc, Follows]
  | digits =>
    rw [Follows, cons_endsComponent]
    by_cases hdigit : c.isDigit = true
    · have hmark : c ≠ '\x27' := by rintro rfl; simp at hdigit
      have hslash : c ≠ '/' := by rintro rfl; simp at hdigit
      simp [next, hdigit, hmark, hslash, Follows]
    · by_cases hmark : c = '\x27'
      · simp [next, hmark]
      · by_cases hslash : c = '/' <;> simp [next, hdigit, hmark, hslash]
  | hardened =>
    rw [Follows, cons_eq_texts]
    by_cases hc : c = '/' <;> simp [next, hc]

theorem accepts_iff (state : PathState) (cs : List Char) :
    state.accepts cs = true ↔ state.Follows cs := by
  induction cs generalizing state with
  | nil => exact state.follows_nil.symm
  | cons c rest ih =>
    rw [follows_cons, accepts]
    cases hnext : state.next c with
    | none => simp
    | some behind => simp [ih]

end PathState

/-- The reader accepts the paths of `m` and one or more components, and no others. -/
theorem isDerivationPath_iff (path : String) : isDerivationPath path = true ↔ WrittenPath path :=
  PathState.start.accepts_iff path.toList

instance (path : String) : Decidable (WrittenPath path) :=
  decidable_of_iff _ (isDerivationPath_iff path)

end SealedEnvelope
