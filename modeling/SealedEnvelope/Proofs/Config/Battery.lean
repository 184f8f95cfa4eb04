import SealedEnvelope.Proofs.Config.Accepted
import SealedEnvelope.Proofs.Config.DerivationPath
import Mathlib.Algebra.GroupWithZero.Nat
import Mathlib.Data.List.Nodup

set_option autoImplicit false

/-! # The battery, rule by rule

The rules of a configuration as data: what each one demands, what number it reckons for that, and in
what words it is reported. `Settings.report` lists the broken rules in the order of the battery,
which is what `Settings.violations` says (`Settings.violations_eq_report`). Where all the numbers
fit in 64 bits, the battery gives that list (`Settings.violations_exact`). -/

namespace SealedEnvelope

/-- A provider's identifiers may have any length but for a custom one, which has bounds. -/
def IdProvider.LengthAllowed : IdProvider → Prop
  | custom length => 1 ≤ length.toNat ∧ length.toNat ≤ 255
  | _ => True

instance : (p : IdProvider) → Decidable p.LengthAllowed
  | .custom _ => inferInstanceAs (Decidable (_ ∧ _))
  | .objectId | .guid | .uuid => inferInstanceAs (Decidable True)

namespace Settings

/-! ## The rules -/

/-- The rules about a settings document as a whole. -/
inductive Rule where
  | provider | consistency
  | curve | publicKeySize | keySize | keyBits | cipher | ivSize | tagSize | derivationPath
  | publicKeyLength | compressedLength | wrappedKeySize | countSize | maxRecipients
  | dataLengthSize | simpleOverhead | singleOverhead | multipleOverhead
  | chunkSize
deriving DecidableEq, Repr

/-- The rules about a password profile. -/
inductive ProfileRule where
  | iterations | saltBytes | hashBytes
deriving DecidableEq, Repr

namespace Rule

/-- The name under which a rule is reported. -/
def name : Rule → String
  | provider => "recipient_id.provider"
  | consistency => "recipient_id.consistency"
  | curve => "algorithm.curve"
  | publicKeySize => "algorithm.public_key_size"
  | keySize => "algorithm.key_size"
  | keyBits => "algorithm.key_bits"
  | cipher => "algorithm.cipher"
  | ivSize => "algorithm.iv_size"
  | tagSize => "algorithm.auth_tag_size"
  | derivationPath => "algorithm.derivation_path"
  | publicKeyLength => "frame.public_key_length"
  | compressedLength => "frame.compressed_public_key_length"
  | wrappedKeySize => "frame.encrypted_key_size"
  | countSize => "frame.recipient_count_size"
  | maxRecipients => "frame.max_recipients"
  | dataLengthSize => "frame.data_length_size"
  | simpleOverhead => "frame.simple_overhead"
  | singleOverhead => "frame.single_overhead"
  | multipleOverhead => "frame.multiple_overhead"
  | chunkSize => "stream.chunk_size"

/-- The rules in front of those about profiles, in order. -/
def front : List Rule :=
  [provider, consistency, curve, publicKeySize, keySize, keyBits, cipher, ivSize, tagSize,
    derivationPath]

/-- The rules behind those about profiles, in order. -/
def back : List Rule :=
  [publicKeyLength, compressedLength, wrappedKeySize, countSize, maxRecipients, dataLengthSize,
    simpleOverhead, singleOverhead, multipleOverhead, chunkSize]

/-- The product or sum of declared sizes that a rule compares another one with. -/
def reckoned (s : Settings) : Rule → Nat
  | keyBits => s.cipher.keySize.toNat * 8
  | publicKeyLength => s.publicKey.rawLength.toNat + 1
  | compressedLength => s.publicKey.rawLength.toNat / 2 + 1
  | wrappedKeySize =>
    s.publicKey.length.toNat + s.ivSize.toNat + s.tagSize.toNat + s.cipher.keySize.toNat
  | simpleOverhead => 1 + s.publicKey.compressedLength.toNat + s.ivSize.toNat + s.tagSize.toNat
  | singleOverhead =>
    1 + s.publicKey.compressedLength.toNat + s.ivSize.toNat + s.tagSize.toNat
      + s.single.dataLengthSize.toNat
  | multipleOverhead =>
    1 + s.publicKey.compressedLength.toNat + s.ivSize.toNat + s.tagSize.toNat
      + s.multiple.countSize.toNat
  | _ => 0

/-- What a rule demands. -/
def Holds (s : Settings) : Rule → Prop
  | provider => s.idProvider.LengthAllowed
  | consistency =>
    s.memberIdLength.toNat = s.idProvider.byteLength
      ∧ s.multiple.idSize.toNat = s.idProvider.byteLength
  | curve => s.curve = "secp256k1"
  | publicKeySize => s.curve = "secp256k1" → s.publicKey.rawLength.toNat = 64
  | keySize => s.cipher.keySize.toNat = 32
  | keyBits => s.cipher.keyBits.toNat = keyBits.reckoned s
  | cipher => s.cipher.algorithm = "aes" ∧ s.cipher.mode = "gcm"
  | ivSize => s.ivSize.toNat = 16
  | tagSize => s.tagSize.toNat = 16
  | derivationPath => ∀ path ∈ s.derivationPath, WrittenPath path
  | publicKeyLength => s.publicKey.length.toNat = publicKeyLength.reckoned s
  | compressedLength => s.publicKey.compressedLength.toNat = compressedLength.reckoned s
  | wrappedKeySize => s.multiple.encryptedKeySize.toNat = wrappedKeySize.reckoned s
  | countSize => s.multiple.countSize.toNat = 2
  | maxRecipients => 1 ≤ s.multiple.maxRecipients.toNat ∧ s.multiple.maxRecipients.toNat ≤ 65535
  | dataLengthSize => s.single.dataLengthSize.toNat = 8
  | simpleOverhead => s.simple.overhead.toNat = simpleOverhead.reckoned s
  | singleOverhead => s.single.overhead.toNat = singleOverhead.reckoned s
  | multipleOverhead => s.multiple.overhead.toNat = multipleOverhead.reckoned s
  | chunkSize =>
    1 ≤ s.stream.chunkSize.toNat ∧ s.stream.chunkSize.toNat ≤ s.stream.maxChunkSize.toNat
      ∧ s.stream.maxChunkSize.toNat ≤ 4 * 1024 * 1024

instance (s : Settings) (r : Rule) : Decidable (r.Holds s) := by
  cases r <;> dsimp only [Holds] <;> infer_instance

/-- What is said of a document that does not meet the demand. -/
def detail (s : Settings) : Rule → String
  | provider => s!"custom identifier length {s.idProvider.byteLength} outside 1-255"
  | consistency =>
    s!"member_id_length ({s.memberIdLength.toNat}), multiple.recipient_id_size "
      ++ s!"({s.multiple.idSize.toNat}) and {s.idProvider.name} provider length "
      ++ s!"({s.idProvider.byteLength}) must be equal"
  | curve =>
    "unsupported curve '" ++ s.curve ++ "' (supported: "
      ++ ", ".intercalate (curves.map Prod.fst) ++ ")"
  | publicKeySize =>
    s!"raw_public_key_length {s.publicKey.rawLength.toNat} bytes, {s.curve} keys are "
      ++ Nat.repr rawKeySize
  | keySize =>
    s!"symmetric key size {s.cipher.keySize.toNat} bytes, expected {requiredKeySize.toNat}"
  | keyBits =>
    s!"key_bits {s.cipher.keyBits.toNat} does not match key_size {s.cipher.keySize.toNat} "
      ++ "bytes"
  | cipher =>
    "unsupported cipher " ++ s.cipher.algorithm ++ "-" ++ s.cipher.mode ++ " (only aes-gcm)"
  | ivSize => s!"iv_size {s.ivSize.toNat} bytes, expected {requiredIvSize.toNat}"
  | tagSize => s!"auth_tag_size {s.tagSize.toNat} bytes, expected {requiredTagSize.toNat}"
  | derivationPath => "'" ++ s.derivationPath.getD "" ++ "' is not a valid derivation path"
  | publicKeyLength =>
    s!"public_key_length {s.publicKey.length.toNat} != raw_public_key_length "
      ++ s!"{s.publicKey.rawLength.toNat} + 1"
  | compressedLength =>
    s!"compressed_public_key_length {s.publicKey.compressedLength.toNat} != "
      ++ "raw_public_key_length / 2 + 1"
  | wrappedKeySize =>
    s!"encrypted_key_size {s.multiple.encryptedKeySize.toNat} != public key "
      ++ s!"{s.publicKey.length.toNat} + iv {s.ivSize.toNat} + tag {s.tagSize.toNat} + key "
      ++ s!"{s.cipher.keySize.toNat} ({wrappedKeySize.reckoned s})"
  | countSize =>
    s!"recipient_count_size {s.multiple.countSize.toNat} bytes, the count field is a u16 "
      ++ s!"({requiredCountSize.toNat} bytes)"
  | maxRecipients =>
    s!"max_recipients {s.multiple.maxRecipients.toNat} outside [1, {recipientLimit.toNat}]"
  | dataLengthSize =>
    s!"data_length_size {s.single.dataLengthSize.toNat} bytes, expected "
      ++ show64 requiredDataLengthSize
  | simpleOverhead =>
    s!"fixed_overhead_size {s.simple.overhead.toNat} != computed {simpleOverhead.reckoned s}"
  | singleOverhead =>
    s!"fixed_overhead_size {s.single.overhead.toNat} != computed {singleOverhead.reckoned s}"
  | multipleOverhead =>
    s!"fixed_overhead_size {s.multiple.overhead.toNat} != computed {multipleOverhead.reckoned s}"
  | chunkSize =>
    s!"need 1 <= chunk_size ({s.stream.chunkSize.toNat}) <= max_chunk_size "
      ++ s!"({s.stream.maxChunkSize.toNat}) <= {Settings.maxChunkSize.toNat}"

/-- The violation of a rule. -/
def violation (s : Settings) (r : Rule) : Violation := ⟨r.name, r.detail s⟩

theorem mem_front_or_back (r : Rule) : r ∈ front ∨ r ∈ back := by
  cases r <;> decide

theorem name_inj {r r' : Rule} : r.name = r'.name ↔ r = r' := by
  refine ⟨fun h => ?_, fun h => by rw [h]⟩
  have hnodup : ((front ++ back).map name).Nodup := by decide
  exact List.inj_on_of_nodup_map hnodup (List.mem_append.2 r.mem_front_or_back)
    (List.mem_append.2 r'.mem_front_or_back) h

end Rule

namespace ProfileRule

/-- The name under which a rule is reported. -/
def name : ProfileRule → String
  | iterations => "profile.iterations"
  | saltBytes => "profile.salt_bytes"
  | hashBytes => "profile.hash_bytes"

/-- The rules in order. -/
def all : List ProfileRule := [iterations, saltBytes, hashBytes]

theorem mem_all (r : ProfileRule) : r ∈ all := by
  cases r <;> decide

/-- What a rule demands of a profile. -/
def Holds (p : PasswordProfile) : ProfileRule → Prop
  | iterations => 1000 ≤ p.iterations.toNat ∧ p.iterations.toNat ≤ 10000000
  | saltBytes => 16 ≤ p.saltBytes.toNat ∧ p.saltBytes.toNat ≤ 256
  | hashBytes => 16 ≤ p.hashBytes.toNat ∧ p.hashBytes.toNat ≤ 64

instance (p : PasswordProfile) (r : ProfileRule) : Decidable (r.Holds p) := by
  cases r <;> dsimp only [Holds] <;> infer_instance

/-- What is said of a profile that does not meet the demand. -/
def detail (profile : String) (p : PasswordProfile) : ProfileRule → String
  | iterations =>
    "profile '" ++ profile ++ s!"': iterations {p.iterations.toNat} outside [1000, 10000000]"
  | saltBytes => "profile '" ++ profile ++ s!"': salt {p.saltBytes.toNat} bytes outside [16, 256]"
  | hashBytes => "profile '" ++ profile ++ s!"': output {p.hashBytes.toNat} bytes outside [16, 64]"

/-- The violation that names the profile. -/
def violation (profile : String) (p : PasswordProfile) (r : ProfileRule) : Violation :=
  ⟨r.name, r.detail profile p⟩

end ProfileRule

theorem Rule.name_ne (r : Rule) (r' : ProfileRule) : r.name ≠ r'.name := by
  cases r' <;> cases r <;> decide

/-! ## Reports -/

/-- The violations of those of some rules that do not hold, in order. -/
def broken {ρ : Type} (rules : List ρ) (holds : ρ → Prop) [DecidablePred holds]
    (violation : ρ → Violation) : List Violation :=
  (rules.filter fun r => ¬holds r).map violation

/-- The broken ones of some rules about the document as a whole. -/
def reportOf (s : Settings) (rules : List Rule) : List Violation :=
  broken rules (·.Holds s) (·.violation s)

/-- The broken rules about one profile. -/
def profileReport (profile : String) (p : PasswordProfile) : List Violation :=
  broken ProfileRule.all (·.Holds p) (·.violation profile p)

/-- The broken rules in the order of the battery. -/
def report (s : Settings) : List Violation :=
  reportOf s Rule.front
    ++ s.profiles.entries.flatMap (fun e => profileReport e.1 e.2)
    ++ reportOf s Rule.back

section Broken

variable {ρ : Type} {rules : List ρ} {holds : ρ → Prop} [DecidablePred holds]
  {violation : ρ → Violation}

@[simp] theorem broken_nil : broken [] holds violation = [] := rfl

theorem broken_cons (r : ρ) (rules : List ρ) :
    broken (r :: rules) holds violation
      = demand (holds r) (violation r).rule (violation r).detail
        ++ broken rules holds violation := by
  by_cases h : holds r <;> simp [broken, demand, h]

theorem broken_append (rules rules' : List ρ) :
    broken (rules ++ rules') holds violation
      = broken rules holds violation ++ broken rules' holds violation := by
  simp [broken]

theorem filter_broken (name : String) :
    (broken rules holds violation).filter (·.rule = name)
      = broken (rules.filter fun r => (violation r).rule = name) holds violation := by
  simp [broken, List.filter_map, List.filter_filter, Function.comp_def, Bool.and_comm]

theorem mem_broken {v : Violation} :
    v ∈ broken rules holds violation ↔ ∃ r ∈ rules, ¬holds r ∧ violation r = v := by
  simp [broken, and_assoc]

theorem broken_eq_nil_iff : broken rules holds violation = [] ↔ ∀ r ∈ rules, holds r := by
  simp [broken]

end Broken

/-! ## The battery reports the broken rules -/

theorem demand_congr {holds holds' : Prop} [Decidable holds] [Decidable holds']
    {rule detail detail' : String} (h : holds ↔ holds') (hdetail : detail = detail') :
    demand holds rule detail = demand holds' rule detail' := by
  subst hdetail
  simp only [demand, h]

section

variable (s : Settings)

/-- One rule's part of the report. -/
def check (s : Settings) (r : Rule) : List Violation := demand (r.Holds s) r.name (r.detail s)

@[simp] theorem reportOf_nil : reportOf s [] = [] := rfl

theorem reportOf_cons (r : Rule) (rules : List Rule) :
    reportOf s (r :: rules) = check s r ++ reportOf s rules :=
  broken_cons r rules

theorem reportOf_append (rules rules' : List Rule) :
    reportOf s (rules ++ rules') = reportOf s rules ++ reportOf s rules' :=
  broken_append rules rules'

theorem idViolations_eq : s.idViolations = reportOf s [.provider, .consistency] := by
  rw [idViolations, reportOf_cons, reportOf_cons, reportOf_nil, List.append_nil]
  refine congrArg₂ (· ++ ·) ?_ (demand_congr Iff.rfl rfl)
  cases hp : s.idProvider with
  | custom length =>
    have hlength : length.toNat = s.idProvider.byteLength := by rw [hp]; rfl
    refine demand_congr ?_ ?_
    · simp only [Rule.Holds, hp]
      exact Iff.rfl
    · rw [hlength]
      rfl
  | _ => simp [check, demand, Rule.Holds, hp, IdProvider.LengthAllowed]

theorem coordinateViolations_eq : s.coordinateViolations = check s .publicKeySize := by
  by_cases h : s.curve = "secp256k1"
  · have hfind : curves.find? (·.1 = s.curve) = some ("secp256k1", UInt64.ofNat rawKeySize) := by
      rw [h]
      rfl
    rw [coordinateViolations, hfind]
    refine demand_congr ?_ rfl
    simp only [Rule.Holds, h, forall_const]
    exact UInt64.toNat_inj.symm
  · have hfind : curves.find? (·.1 = s.curve) = none := by
      simp [curves, Ne.symm h]
    rw [coordinateViolations, hfind]
    simp [check, demand, Rule.Holds, h]

theorem pathViolations_eq : s.pathViolations = check s .derivationPath := by
  unfold pathViolations
  cases hpath : s.derivationPath with
  | none => simp [check, demand, Rule.Holds, hpath]
  | some path =>
    have hgiven : path = s.derivationPath.getD "" := by rw [hpath]; rfl
    refine demand_congr ?_ ?_
    · simp [Rule.Holds, hpath, isDerivationPath_iff]
    · exact congrArg (fun given => "'" ++ given ++ "' is not a valid derivation path") hgiven

theorem algorithmViolations_eq :
    s.algorithmViolations s.exact
      = reportOf s
        [.curve, .publicKeySize, .keySize, .keyBits, .cipher, .ivSize, .tagSize,
          .derivationPath] := by
  have hcurve : s.curve ∈ curves.map Prod.fst ↔ s.curve = "secp256k1" := by simp [curves]
  simp only [algorithmViolations, reportOf_cons, reportOf_nil, List.append_nil, List.append_assoc,
    coordinateViolations_eq, pathViolations_eq]
  refine congrArg₂ (· ++ ·) (demand_congr hcurve rfl) (congrArg _ ?_)
  refine congrArg₂ (· ++ ·) (demand_congr UInt64.toNat_inj.symm rfl) ?_
  refine congrArg₂ (· ++ ·) (demand_congr Iff.rfl rfl) ?_
  refine congrArg₂ (· ++ ·) (demand_congr Iff.rfl rfl) ?_
  refine congrArg₂ (· ++ ·) (demand_congr UInt64.toNat_inj.symm rfl) ?_
  exact congrArg₂ (· ++ ·) (demand_congr UInt64.toNat_inj.symm rfl) rfl

/-- Half of a length leaves room for one more. -/
theorem toNat_half_add_one (n : UInt64) : (n / 2 + 1).toNat = n.toNat / 2 + 1 := by
  have hlt := n.toNat_lt
  simp only [UInt64.toNat_add, UInt64.toNat_div, UInt64.reduceToNat]
  omega

theorem frameViolations_eq :
    s.frameViolations s.exact
      = reportOf s
        [.publicKeyLength, .compressedLength, .wrappedKeySize, .countSize, .maxRecipients,
          .dataLengthSize, .simpleOverhead, .singleOverhead, .multipleOverhead] := by
  have hcompressed : s.publicKey.compressedLength = s.publicKey.rawLength / 2 + 1
      ↔ s.publicKey.compressedLength.toNat = s.publicKey.rawLength.toNat / 2 + 1 := by
    rw [← UInt64.toNat_inj, toNat_half_add_one]
  have hmax : 0 < s.multiple.maxRecipients ∧ s.multiple.maxRecipients ≤ recipientLimit
      ↔ 1 ≤ s.multiple.maxRecipients.toNat ∧ s.multiple.maxRecipients.toNat ≤ 65535 :=
    and_congr UInt64.lt_iff_toNat_lt UInt64.le_iff_toNat_le
  simp only [frameViolations, reportOf_cons, reportOf_nil, List.append_nil, List.append_assoc]
  refine congrArg₂ (· ++ ·) (demand_congr Iff.rfl rfl) ?_
  refine congrArg₂ (· ++ ·) (demand_congr hcompressed rfl) ?_
  refine congrArg₂ (· ++ ·) (demand_congr Iff.rfl rfl) ?_
  refine congrArg₂ (· ++ ·) (demand_congr UInt64.toNat_inj.symm rfl) ?_
  refine congrArg₂ (· ++ ·) (demand_congr hmax rfl) ?_
  exact congrArg₂ (· ++ ·) (demand_congr UInt64.toNat_inj.symm rfl) rfl

theorem streamViolations_eq : s.streamViolations = reportOf s [.chunkSize] := by
  rw [streamViolations, reportOf_cons, reportOf_nil, List.append_nil]
  refine demand_congr ?_ rfl
  exact and_congr UInt64.lt_iff_toNat_lt (and_congr UInt64.le_iff_toNat_le UInt64.le_iff_toNat_le)

theorem profileViolations_eq (profile : String) (p : PasswordProfile) :
    profileViolations profile p = profileReport profile p := by
  simp only [profileViolations, profileReport, ProfileRule.all, broken_cons, broken_nil,
    List.append_nil, List.append_assoc]
  refine congrArg₂ (· ++ ·) (demand_congr ?_ rfl) (congrArg₂ (· ++ ·) (demand_congr ?_ rfl)
    (demand_congr ?_ rfl))
  · exact and_congr UInt32.le_iff_toNat_le UInt32.le_iff_toNat_le
  · exact and_congr UInt64.le_iff_toNat_le UInt64.le_iff_toNat_le
  · exact and_congr UInt64.le_iff_toNat_le UInt64.le_iff_toNat_le

/-- The broken rules are reported in the order of the battery. -/
theorem violations_eq_report : s.violations = s.report := by
  have hfront : s.idViolations ++ s.algorithmViolations s.exact = reportOf s Rule.front := by
    rw [idViolations_eq, algorithmViolations_eq, ← reportOf_append]
    rfl
  have hback : s.frameViolations s.exact ++ s.streamViolations = reportOf s Rule.back := by
    rw [frameViolations_eq, streamViolations_eq, ← reportOf_append]
    rfl
  simp only [violations, violationsBy, report, hfront, List.append_assoc, hback,
    profileViolations_eq]

/-! ## What a report says of one rule -/

variable {s}

/-- Under a rule's name its violation stands once if its demand is not met, otherwise nothing. -/
theorem filter_report_rule (r : Rule) :
    s.report.filter (·.rule = r.name)
      = if r.Holds s then [] else [r.violation s] := by
  have hrules : ∀ rules, (reportOf s rules).filter (·.rule = r.name)
      = reportOf s (rules.filter (· = r)) := by
    intro rules
    rw [reportOf, filter_broken, reportOf]
    simp only [Rule.violation, Rule.name_inj]
  have hprofiles : (s.profiles.entries.flatMap fun e => profileReport e.1 e.2).filter
      (·.rule = r.name) = [] := by
    rw [List.filter_eq_nil_iff]
    intro v hv
    obtain ⟨e, -, hv⟩ := List.mem_flatMap.1 hv
    obtain ⟨r', -, -, rfl⟩ := mem_broken.1 hv
    exact fun h => r.name_ne r' (of_decide_eq_true h).symm
  have hone : Rule.front.filter (· = r) ++ Rule.back.filter (· = r) = [r] := by
    cases r <;> rfl
  rw [report, List.filter_append, List.filter_append, hprofiles, List.append_nil, hrules, hrules,
    ← reportOf_append, hone, reportOf_cons, reportOf_nil, List.append_nil]
  rfl

/-- Under the name of a rule about profiles every offending profile is reported once, in order. -/
theorem filter_report_profileRule (r : ProfileRule) :
    s.report.filter (·.rule = r.name)
      = (s.profiles.entries.filter fun e => ¬r.Holds e.2).map fun e => r.violation e.1 e.2 := by
  have hrules : ∀ rules, (reportOf s rules).filter (·.rule = r.name) = [] := by
    intro rules
    rw [List.filter_eq_nil_iff]
    intro v hv
    obtain ⟨r', -, -, rfl⟩ := mem_broken.1 hv
    exact fun h => r'.name_ne r (of_decide_eq_true h)
  have hone : ProfileRule.all.filter (·.name = r.name) = [r] := by
    cases r <;> rfl
  have hprofile : ∀ e : String × PasswordProfile,
      (profileReport e.1 e.2).filter (·.rule = r.name)
        = demand (r.Holds e.2) r.name (r.detail e.1 e.2) := by
    intro e
    rw [profileReport, filter_broken]
    show broken (ProfileRule.all.filter (·.name = r.name)) _ _ = _
    rw [hone, broken_cons, broken_nil, List.append_nil]
    rfl
  rw [report, List.filter_append, List.filter_append, hrules, hrules, List.nil_append,
    List.append_nil, List.filter_flatMap]
  simp only [hprofile]
  induction s.profiles.entries with
  | nil => rfl
  | cons e rest ih =>
    rw [List.flatMap_cons, ih]
    by_cases h : r.Holds e.2 <;> simp [demand, h, ProfileRule.violation]

/-- Nothing is reported if all rules hold, those about profiles for every one. -/
theorem report_eq_nil_iff :
    s.report = []
      ↔ (∀ r : Rule, r.Holds s)
        ∧ ∀ e ∈ s.profiles.entries, ∀ r : ProfileRule, r.Holds e.2 := by
  have hrules : ∀ rules, reportOf s rules = []
      ↔ ∀ r ∈ rules, r.Holds s := by
    simp [reportOf, broken_eq_nil_iff]
  have hprofiles : (s.profiles.entries.flatMap fun e => profileReport e.1 e.2) = []
      ↔ ∀ e ∈ s.profiles.entries, ∀ r : ProfileRule, r.Holds e.2 := by
    simp [profileReport, broken_eq_nil_iff, ProfileRule.mem_all]
  rw [report, List.append_eq_nil_iff, List.append_eq_nil_iff, hrules, hrules, hprofiles]
  constructor
  · rintro ⟨⟨hfront, hprofiles⟩, hback⟩
    exact ⟨fun r => r.mem_front_or_back.elim (hfront r) (hback r), hprofiles⟩
  · rintro ⟨h, hprofiles⟩
    exact ⟨⟨fun r _ => h r, hprofiles⟩, fun r _ => h r⟩

/-! ## Numbers that fit -/

/-- Every number that a rule reckons fits in 64 bits. -/
def Reckonable (s : Settings) : Prop := ∀ r : Rule, r.reckoned s < 2 ^ 64

/-- Of what the rules reckon, one sum fits without being looked at. -/
theorem reckonable_iff : s.Reckonable ↔ s.exact.Fits := by
  constructor
  · intro h
    exact ⟨h .keyBits, h .publicKeyLength, h .wrappedKeySize, h .simpleOverhead, h .singleOverhead,
      h .multipleOverhead⟩
  · intro h r
    cases r with
    | keyBits => exact h.keyBits
    | publicKeyLength => exact h.publicKeyLength
    | compressedLength =>
      rw [Rule.reckoned, ← toNat_half_add_one]
      exact UInt64.toNat_lt _
    | wrappedKeySize => exact h.wrappedKeySize
    | simpleOverhead => exact h.simpleOverhead
    | singleOverhead => exact h.singleOverhead
    | multipleOverhead => exact h.multipleOverhead
    | _ => exact Nat.two_pow_pos 64

theorem Reckonable.battery_eq (h : s.Reckonable) : s.battery = .ok s.violations := by
  rw [Settings.battery_eq, if_pos (reckonable_iff.1 h)]

/-- Sizes below 2^32 are small enough. -/
theorem reckonable_of_small (hkey : s.cipher.keySize.toNat < 2 ^ 32)
    (hraw : s.publicKey.rawLength.toNat < 2 ^ 32) (hlength : s.publicKey.length.toNat < 2 ^ 32)
    (hcompressed : s.publicKey.compressedLength.toNat < 2 ^ 32) (hiv : s.ivSize.toNat < 2 ^ 32)
    (htag : s.tagSize.toNat < 2 ^ 32) (hdata : s.single.dataLengthSize.toNat < 2 ^ 32)
    (hcount : s.multiple.countSize.toNat < 2 ^ 32) : s.Reckonable := by
  intro r
  cases r <;> simp only [Rule.reckoned] <;> omega

/-- What becomes of settings: a configuration if the battery finds nothing, otherwise an error with
    all that it finds, or an overflow. -/
theorem ofSettings_eq (s : Settings) :
    (s.battery = .ok [] ∧ ∃ config, Config.ofSettings s = .ok config ∧ config.settings = s)
      ∨ (∃ violations, s.battery = .ok violations ∧ violations ≠ []
        ∧ Config.ofSettings s = .error (.returned (.invalidConfiguration violations)))
      ∨ ∃ o, s.battery = .error o ∧ Config.ofSettings s = .error (.overflow o) := by
  cases hbattery : s.battery with
  | ok violations =>
    by_cases hnil : violations = []
    · subst hnil
      exact .inl ⟨rfl, ⟨s, hbattery⟩, Config.accept_eq_ok_iff.2 ⟨hbattery, rfl⟩, rfl⟩
    · exact .inr (.inl ⟨violations, rfl, hnil, Config.accept_of_ne_nil hbattery hnil⟩)
  | error o => exact .inr (.inr ⟨o, rfl, Config.accept_of_overflow hbattery⟩)

/-- Where no number that a rule reckons leaves 64 bits, the battery lists exactly the broken rules,
    in its order: a rule about the document once or not at all, a rule about profiles once for every
    offending one, by their names. Settings that break none are a configuration; otherwise the list
    is the error. -/
theorem violations_exact (h : s.Reckonable) :
    s.battery = .ok s.violations
      ∧ s.violations = s.report
      ∧ (∀ r : Rule,
          s.violations.filter (·.rule = r.name) = if r.Holds s then [] else [r.violation s])
      ∧ (∀ r : ProfileRule,
          s.violations.filter (·.rule = r.name)
            = (s.profiles.entries.filter fun e => ¬r.Holds e.2).map fun e => r.violation e.1 e.2)
      ∧ s.profiles.keys.Pairwise (· < ·)
      ∧ (s.violations = []
          ↔ (∀ r : Rule, r.Holds s)
            ∧ ∀ e ∈ s.profiles.entries, ∀ r : ProfileRule, r.Holds e.2)
      ∧ ((∃ config, Config.ofSettings s = .ok config) ↔ s.violations = [])
      ∧ (∀ config, Config.ofSettings s = .ok config → config.settings = s)
      ∧ (∀ e, Config.ofSettings s = .error e
          → e = .returned (.invalidConfiguration s.violations)) := by
  have hreport : s.violations = s.report := s.violations_eq_report
  refine ⟨h.battery_eq, hreport, fun r => ?_, fun r => ?_, s.profiles.ascending_keys, ?_, ?_⟩
  · rw [hreport]
    exact filter_report_rule r
  · rw [hreport]
    exact filter_report_profileRule r
  · rw [hreport]
    exact report_eq_nil_iff
  · obtain ⟨hnil, config, hok, hsettings⟩ | ⟨violations, hlist, hne, herror⟩ | ⟨o, ho, -⟩ :=
      s.ofSettings_eq
    · exact ⟨iff_of_true ⟨config, hok⟩ (battery_eq_ok_nil_iff.1 hnil), by simp [hok, hsettings],
        by simp [hok]⟩
    · obtain rfl : s.violations = violations := (battery_eq_ok_iff.1 hlist).2
      exact ⟨iff_of_false (by simp [herror]) hne, by simp [herror], by simp [herror, eq_comm]⟩
    · rw [h.battery_eq] at ho
      cases ho

/-- Reported together: the curve, the size of the key, the salt of two profiles, and the size of a
    wrapped key, which depends on that of the key. -/
theorem violations_exact_five :
    let s : Settings :=
      { Settings.standard with
        curve := "p256"
        cipher := ⟨"aes", "gcm", 128, 16⟩
        profiles := ⟨[("a", ⟨32, 8, 2000, "sha512"⟩), ("b", ⟨32, 15, 2000, "sha512"⟩)], by decide⟩ }
    s.Reckonable ∧ s.battery = .ok s.violations ∧ s.violations = s.report
      ∧ s.violations.map (·.rule)
        = ["algorithm.curve", "algorithm.key_size", "profile.salt_bytes", "profile.salt_bytes",
          "frame.encrypted_key_size"]
      ∧ Config.ofSettings s = .error (.returned (.invalidConfiguration s.violations)) := by
  intro s
  have h : s.Reckonable := reckonable_of_small (by decide) (by decide) (by decide) (by decide)
    (by decide) (by decide) (by decide) (by decide)
  obtain ⟨hbattery, hreport, -, -, -, -, hok, -, herror⟩ := violations_exact h
  have hrules : s.violations.map (·.rule)
      = ["algorithm.curve", "algorithm.key_size", "profile.salt_bytes", "profile.salt_bytes",
        "frame.encrypted_key_size"] := by
    decide +kernel
  refine ⟨h, hbattery, hreport, hrules, ?_⟩
  cases hs : Config.ofSettings s with
  | ok config =>
    rw [hok.1 ⟨config, hs⟩] at hrules
    cases hrules
  | error e => rw [herror e hs]

end

end Settings

end SealedEnvelope
