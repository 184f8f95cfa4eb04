import SealedEnvelope.Proofs.Config.Battery
import SealedEnvelope.Proofs.Config.Document
import SealedEnvelope.Proofs.Config.DerivationPath
import Mathlib.Computability.RegularExpressions

set_option autoImplicit false

/-! # The pattern of derivation paths

What the rule on derivation paths asks for is the pattern `m(/[0-9]+'?)+`, matched against the whole
path. `PathPattern.path` is that pattern as a regular expression, and its words are the paths of `m`
and one or more components (`PathPattern.mem_path`), so that the reader, the pattern and the written
form are three descriptions of one set. Settings, and overrides laid over any configuration, are
refused for their path exactly if it is not in this set (`Settings.derivationPath_exact`). -/

namespace SealedEnvelope

open PathComponent
open RegularExpression (char)

/-! ## The pattern and its words -/

namespace PathPattern

section Combinators

variable {α : Type} {P : RegularExpression α} {text : List α}

/-- One match or more, one behind the other. -/
def oneOrMore (P : RegularExpression α) : RegularExpression α := P * P.star

/-- A match, or nothing. -/
def optional (P : RegularExpression α) : RegularExpression α := P + 1

/-- One of some letters. -/
def oneOf (letters : List α) : RegularExpression α := (letters.map char).sum

theorem mem_char {a : α} : text ∈ (char a).matches' ↔ text = [a] := Iff.rfl

theorem mem_optional : text ∈ (optional P).matches' ↔ text ∈ P.matches' ∨ text = [] := Iff.rfl

theorem mem_oneOrMore :
    text ∈ (oneOrMore P).matches'
      ↔ ∃ parts ≠ [], text = parts.flatten ∧ ∀ part ∈ parts, part ∈ P.matches' := by
  rw [oneOrMore, RegularExpression.matches'_mul, RegularExpression.matches'_star, Language.mem_mul]
  constructor
  · rintro ⟨part, hpart, rest, hrest, rfl⟩
    obtain ⟨parts, rfl, hparts⟩ := Language.mem_kstar.1 hrest
    exact ⟨part :: parts, by simp, rfl, List.forall_mem_cons.2 ⟨hpart, hparts⟩⟩
  · rintro ⟨_ | ⟨part, parts⟩, hne, rfl, hparts⟩
    · exact absurd rfl hne
    · rw [List.forall_mem_cons] at hparts
      exact ⟨part, hparts.1, parts.flatten, Language.join_mem_kstar hparts.2, rfl⟩

theorem mem_oneOf {letters : List α} :
    text ∈ (oneOf letters).matches' ↔ ∃ a ∈ letters, text = [a] := by
  induction letters with
  | nil =>
    simp only [List.not_mem_nil, false_and, exists_false, iff_false]
    exact Language.notMem_zero text
  | cons a rest ih =>
    have hcons : oneOf (a :: rest) = char a + oneOf rest := rfl
    rw [hcons, RegularExpression.matches'_add, Language.mem_add, mem_char, ih,
      List.exists_mem_cons_iff]

/-- Some letters, one behind the other. -/
theorem mem_oneOrMore_oneOf {letters : List α} :
    text ∈ (oneOrMore (oneOf letters)).matches' ↔ text ≠ [] ∧ ∀ a ∈ text, a ∈ letters := by
  rw [mem_oneOrMore]
  constructor
  · rintro ⟨parts, hne, rfl, hparts⟩
    constructor
    · obtain ⟨part, rest, rfl⟩ := List.exists_cons_of_ne_nil hne
      obtain ⟨a, -, rfl⟩ := mem_oneOf.1 (hparts part List.mem_cons_self)
      exact List.cons_ne_nil _ _
    · intro a ha
      obtain ⟨part, hpart, ha⟩ := List.mem_flatten.1 ha
      obtain ⟨b, hb, rfl⟩ := mem_oneOf.1 (hparts part hpart)
      rwa [List.mem_singleton.1 ha]
  · rintro ⟨hne, hletters⟩
    refine ⟨text.map ([·]), by simpa using hne, ?_, ?_⟩
    · rw [← List.flatMap_def, List.flatMap_singleton']
    · intro part hpart
      obtain ⟨a, ha, rfl⟩ := List.mem_map.1 hpart
      exact mem_oneOf.2 ⟨a, hletters a ha, rfl⟩

end Combinators

/-- The letters of `[0-9]`. -/
def digits : List Char := ['0', '1', '2', '3', '4', '5', '6', '7', '8', '9']

/-- The pattern of a component, `/[0-9]+'?`. -/
def component : RegularExpression Char :=
  char '/' * (oneOrMore (oneOf digits) * optional (char '\x27'))

/-- The pattern of a path, `m(/[0-9]+'?)+`. -/
def path : RegularExpression Char := char 'm' * oneOrMore component

theorem mem_digits_iff (c : Char) : c ∈ digits ↔ c.isDigit = true := by
  constructor
  · have hall : digits.all Char.isDigit = true := by decide
    exact List.all_eq_true.1 hall c
  · intro h
    have hall : ∀ i < 10, Char.ofNat (48 + i) ∈ digits := by decide
    obtain ⟨hlow, hhigh⟩ : 48 ≤ c.toNat ∧ c.toNat ≤ 57 := by
      simpa [Char.isDigit, UInt32.le_iff_toNat_le] using h
    have hc := hall (c.toNat - 48) (by omega)
    rwa [Nat.add_sub_cancel' hlow, Char.ofNat_toNat] at hc

theorem mem_mark {text : List Char} :
    text ∈ (optional (char '\x27')).matches' ↔ ∃ hardened, text = mark hardened := by
  rw [mem_optional, mem_char, Bool.exists_bool, or_comm]
  rfl

theorem mem_component {text : List Char} :
    text ∈ component.matches' ↔ ∃ c : PathComponent, c.text = text := by
  simp only [component, RegularExpression.matches'_mul, Language.mem_mul, mem_char,
    mem_oneOrMore_oneOf, mem_mark, mem_digits_iff]
  constructor
  · rintro ⟨_, rfl, _, ⟨digits, ⟨hne, hdecimal⟩, _, ⟨hardened, rfl⟩, rfl⟩, rfl⟩
    exact ⟨⟨digits, hardened, hne, hdecimal⟩, rfl⟩
  · rintro ⟨c, rfl⟩
    exact ⟨_, rfl, _, ⟨c.digits, ⟨c.nonempty, c.decimal⟩, _, ⟨c.hardened, rfl⟩, rfl⟩, rfl⟩

/-- The words of the pattern are the paths of `m` and one or more components. -/
theorem mem_path {given : String} : given.toList ∈ path.matches' ↔ WrittenPath given := by
  simp only [path, RegularExpression.matches'_mul, Language.mem_mul, mem_char, mem_oneOrMore,
    mem_component]
  constructor
  · rintro ⟨_, rfl, _, ⟨parts, hne, rfl, hparts⟩, htext⟩
    obtain ⟨components, rfl⟩ : parts ∈ Set.range (List.map text) := by
      rw [Set.range_list_map]
      exact hparts
    exact ⟨components, by simpa using hne, htext.symm⟩
  · rintro ⟨components, hne, htext⟩
    refine ⟨_, rfl, _, ⟨components.map text, by simpa using hne, rfl, ?_⟩, htext.symm⟩
    intro part hpart
    obtain ⟨c, -, rfl⟩ := List.mem_map.1 hpart
    exact ⟨c, rfl⟩

end PathPattern

/-! ## What no path holds

Which characters may stand side by side, or at the end, is seen in the reader, one state at a
time. -/

namespace PathState

/-- An accepted text is accepted, from one state or another, at every place in it. -/
theorem exists_accepts_of_append {state : PathState} {front back : List Char}
    (h : state.accepts (front ++ back) = true) :
    ∃ behind : PathState, behind.accepts back = true := by
  induction front generalizing state with
  | nil => exact ⟨state, h⟩
  | cons c rest ih =>
    rw [List.cons_append, accepts] at h
    cases hnext : state.next c with
    | none => simp [hnext] at h
    | some behind => exact ih (by simpa [hnext] using h)

end PathState

namespace WrittenPath

variable {path : String}

theorem exists_accepts (h : WrittenPath path) {front back : List Char}
    (htext : path.toList = front ++ back) : ∃ state : PathState, state.accepts back = true := by
  have haccepts : PathState.start.accepts path.toList = true := (isDerivationPath_iff path).2 h
  rw [htext] at haccepts
  exact PathState.exists_accepts_of_append haccepts

theorem eq_or_isDigit_of_mem (h : WrittenPath path) {c : Char} (hc : c ∈ path.toList) :
    c = 'm' ∨ c = '/' ∨ c = '\x27' ∨ c.isDigit = true := by
  obtain ⟨front, back, htext⟩ := List.append_of_mem hc
  obtain ⟨state, hstate⟩ := h.exists_accepts htext
  cases state <;> grind [PathState.accepts, PathState.next]

theorem getLast?_ne_slash (h : WrittenPath path) : path.toList.getLast? ≠ some '/' := by
  intro hlast
  obtain ⟨front, htext⟩ := List.getLast?_eq_some_iff.1 hlast
  obtain ⟨state, hstate⟩ := h.exists_accepts htext
  cases state <;> simp [PathState.accepts, PathState.next, PathState.isFinal] at hstate

/-- Only digits stand next to themselves. -/
theorem not_twice (h : WrittenPath path) {c : Char} (hc : c.isDigit = false) :
    ¬[c, c] <:+: path.toList := by
  rintro ⟨front, back, htext⟩
  rw [List.append_assoc] at htext
  obtain ⟨state, hstate⟩ := h.exists_accepts htext.symm
  cases state <;> grind [PathState.accepts, PathState.next]

end WrittenPath

/-! ## The rule -/

namespace Settings

variable {s : Settings}

/-- The same settings with a derivation path. -/
def withPath (s : Settings) (path : String) : Settings := { s with derivationPath := some path }

/-- What is reported of a text that is no path. -/
def pathViolation (path : String) : Violation :=
  ⟨"algorithm.derivation_path", "'" ++ path ++ "' is not a valid derivation path"⟩

/-- Whatever else is wrong, the path is reported once or not at all. -/
theorem filter_violations_withPath (s : Settings) (path : String) :
    (s.withPath path).violations.filter (·.rule = Rule.derivationPath.name)
      = if WrittenPath path then [] else [pathViolation path] := by
  have hholds : Rule.derivationPath.Holds (s.withPath path) ↔ WrittenPath path := by
    simp [Rule.Holds, withPath]
  rw [violations_eq_report, filter_report_rule, if_congr hholds rfl rfl]
  rfl

/-- The other rules do not read the path. -/
theorem holds_withPath {r : Rule} (hr : r ≠ .derivationPath) (s : Settings) (path : String) :
    r.Holds (s.withPath path) ↔ r.Holds s := by
  cases r with
  | derivationPath => exact absurd rfl hr
  | _ => exact Iff.rfl

/-- Where no other rule is broken, nothing else is reported. -/
theorem violations_withPath (h : s.violations = []) (path : String) :
    (s.withPath path).violations = if WrittenPath path then [] else [pathViolation path] := by
  rw [violations_eq_report, report_eq_nil_iff] at h
  obtain ⟨hrules, hprofiles⟩ := h
  have hrule : ∀ rules, ∀ v ∈ reportOf (s.withPath path) rules,
      v.rule = Rule.derivationPath.name := by
    intro rules v hv
    obtain ⟨r, -, hbroken, rfl⟩ := mem_broken.1 hv
    by_cases hr : r = .derivationPath
    · rw [hr]
      rfl
    · rw [holds_withPath hr] at hbroken
      exact absurd (hrules r) hbroken
  have hall : ∀ v ∈ (s.withPath path).violations, v.rule = Rule.derivationPath.name := by
    intro v hv
    rw [violations_eq_report, report] at hv
    rcases List.mem_append.1 hv with hv | hv
    · rcases List.mem_append.1 hv with hv | hv
      · exact hrule _ v hv
      · obtain ⟨e, he, hv⟩ := List.mem_flatMap.1 hv
        obtain ⟨r, -, hbroken, -⟩ := mem_broken.1 hv
        exact absurd (hprofiles e he r) hbroken
    · exact hrule _ v hv
  rw [← filter_violations_withPath s, List.filter_eq_self.2 fun v hv => decide_eq_true (hall v hv)]

/-- Nothing is reckoned from the path. -/
theorem battery_withPath (s : Settings) (path : String) :
    (s.withPath path).battery
      = if s.exact.Fits then .ok (s.withPath path).violations else .error s.exact.overflow :=
  (s.withPath path).battery_eq

end Settings

/-! ## Declaring a path -/

namespace Config

open Settings

/-- The overrides that declare a derivation path. -/
def pathOverrides (path : String) : Json :=
  .object [("primary_key_derivation_path", .string path)]

/-- Laid over a configuration, they change its path and nothing else. -/
theorem decode_pathOverrides (base : Config) (path : String) :
    codec.decode (base.document.merge (pathOverrides path))
      = .ok (base.settings.withPath path) := by
  rw [← lawful_codec]
  rfl

/-- A path is declared, or it is all that is wrong. -/
theorem buildFrom_pathOverrides (base : Config) (path : String) :
    (base.buildFrom (pathOverrides path)).map Config.settings
      = if WrittenPath path then .ok (base.settings.withPath path)
        else .error (.returned (.invalidConfiguration [pathViolation path])) := by
  have hbuild : base.buildFrom (pathOverrides path) = ofSettings (base.settings.withPath path) :=
    buildFrom_of_decode (base.decode_pathOverrides path)
  have hbattery := battery_withPath base.settings path
  rw [if_pos (fits_of_violations_eq_nil base.violations_eq_nil),
    violations_withPath base.violations_eq_nil path] at hbattery
  by_cases hpath : WrittenPath path
  · rw [if_pos hpath] at hbattery ⊢
    have hok : ofSettings (base.settings.withPath path) = .ok ⟨_, hbattery⟩ :=
      accept_eq_ok_iff.2 ⟨hbattery, rfl⟩
    rw [hbuild, hok]
    rfl
  · rw [if_neg hpath] at hbattery ⊢
    rw [hbuild, ofSettings, accept_of_ne_nil hbattery (List.cons_ne_nil _ _)]
    rfl

end Config

/-- **The rule on derivation paths.** In any settings a text in the place of the path is reported
    exactly if it is not `m` and one or more components, each a slash, ASCII digits and at most one
    apostrophe, and then it is reported once. The texts that pass are the words of the pattern, and
    nothing else stands in them: no other character, no slash at the end, no two slashes and no two
    apostrophes side by side. Whether the battery ends in an overflow does not depend on them. Over
    any configuration such a path can be declared, and every other text fails with this one
    violation. -/
theorem Settings.derivationPath_exact (s : Settings) (base : Config) (path : String) :
    ((∀ v ∈ (s.withPath path).violations, v.rule ≠ "algorithm.derivation_path")
        ↔ WrittenPath path)
      ∧ (s.withPath path).violations.filter (·.rule = "algorithm.derivation_path")
        = (if WrittenPath path then [] else [pathViolation path])
      ∧ (WrittenPath path ↔ path.toList ∈ PathPattern.path.matches')
      ∧ (WrittenPath path →
          (∀ c ∈ path.toList, c = 'm' ∨ c = '/' ∨ c = '\x27' ∨ c.isDigit = true)
          ∧ path.toList.getLast? ≠ some '/'
          ∧ ¬['/', '/'] <:+: path.toList ∧ ¬['\x27', '\x27'] <:+: path.toList)
      ∧ (s.withPath path).battery
        = (if s.exact.Fits then .ok (s.withPath path).violations else .error s.exact.overflow)
      ∧ (base.buildFrom (Config.pathOverrides path)).map Config.settings
        = if WrittenPath path then .ok (base.settings.withPath path)
          else .error (.returned (.invalidConfiguration [pathViolation path])) := by
  have hfilter := filter_violations_withPath s path
  have hnone : (∀ v ∈ (s.withPath path).violations, v.rule ≠ Rule.derivationPath.name)
      ↔ (s.withPath path).violations.filter (·.rule = Rule.derivationPath.name) = [] := by
    simp [List.filter_eq_nil_iff]
  refine ⟨?_, hfilter, PathPattern.mem_path.symm, ?_, s.battery_withPath path,
    base.buildFrom_pathOverrides path⟩
  · refine hnone.trans ?_
    rw [hfilter]
    by_cases hpath : WrittenPath path <;> simp [hpath]
  · intro h
    exact ⟨fun c hc => h.eq_or_isDigit_of_mem hc, h.getLast?_ne_slash,
      h.not_twice (by decide), h.not_twice (by decide)⟩

/-- A path with hardened components passes beside a broken rule, and a second apostrophe behind one
    does not. -/
theorem Settings.derivationPath_exact_hardened :
    let s : Settings := { standard with curve := "p256" }
    WrittenPath "m/44'/0'/7"
      ∧ (s.withPath "m/44'/0'/7").violations.map (·.rule) = ["algorithm.curve"]
      ∧ (∀ v ∈ (s.withPath "m/44'/0'/7").violations, v.rule ≠ "algorithm.derivation_path")
      ∧ "m/44'/0'/7".toList ∈ PathPattern.path.matches'
      ∧ ¬['\x27', '\x27'] <:+: "m/44'/0'/7".toList
      ∧ (s.withPath "m/44'/0'/7").battery = .ok (s.withPath "m/44'/0'/7").violations
      ∧ (Config.standard.buildFrom (Config.pathOverrides "m/44'/0'/7")).map Config.settings
        = .ok (standard.withPath "m/44'/0'/7")
      ∧ (s.withPath "m/44''").violations.map (·.rule)
        = ["algorithm.curve", "algorithm.derivation_path"]
      ∧ (Config.standard.buildFrom (Config.pathOverrides "m/44''")).map Config.settings
        = .error (.returned (.invalidConfiguration
          [⟨"algorithm.derivation_path", "'m/44''' is not a valid derivation path"⟩])) := by
  intro s
  have hpath : WrittenPath "m/44'/0'/7" := by decide +kernel
  obtain ⟨hrule, -, hpattern, htext, hbattery, hbuild⟩ :=
    derivationPath_exact s Config.standard "m/44'/0'/7"
  obtain ⟨-, -, -, -, -, hrefused⟩ := derivationPath_exact s Config.standard "m/44''"
  rw [if_pos hpath] at hbuild
  rw [if_pos (by decide +kernel)] at hbattery
  rw [if_neg (by decide +kernel)] at hrefused
  exact ⟨hpath, by decide +kernel, hrule.2 hpath, hpattern.1 hpath, (htext hpath).2.2.2,
    hbattery, hbuild, by decide +kernel, hrefused⟩

example : ∀ text ∈ ["", "m", "m/", "m/1/", "m//1", "m/'", "m/1'2", "m/1\n", "m/\u0664", " m/1"],
    ¬WrittenPath text := by
  decide +kernel

end SealedEnvelope
