import SealedEnvelope.Json.Parser
import SealedEnvelope.Json.Printer
import SealedEnvelope.Proofs.Sequence
import SealedEnvelope.Proofs.Text.Utf8
import Mathlib.Data.List.Basic

set_option autoImplicit false

/-! # Numbers and strings in a text

A scan `Reads` a text if it reads just that from in front of whatever may follow there. Scans one
after the other read their texts one after the other (`Scan.Reads.bind`). What is written for an
integer of 64 bits is read back (`reads_parseNumber`), and so is a string, in which plain characters
stand for themselves and all others are escaped (`reads_parseString`). -/

namespace SealedEnvelope.Json

open Text (utf8 octetOf)

/-! ## Reading -/

/-- No octet that would go on with a number stands in front. -/
def Delimited (rest : Bytes) : Prop :=
  ∀ b, rest.head? = some b →
    isDigit b = false ∧ b ≠ octet '.' ∧ b ≠ octet 'e' ∧ b ≠ octet 'E'

/-- The scan reads exactly this text, from in front of anything that delimits it. -/
def Scan.Reads {α : Type} (scan : Scan α) (text : Bytes) (a : α) : Prop :=
  ∀ offset rest, Delimited rest →
    scan ⟨offset, text ++ rest⟩ = .ok (a, ⟨offset + text.length, rest⟩)

/-- White space. -/
def Gap (text : Bytes) : Prop := ∀ b ∈ text, isSpace b = true

theorem gap_nil : Gap [] := nofun

theorem delimited_nil : Delimited [] := nofun

theorem delimited_cons {b : UInt8} {rest : Bytes}
    (h : isDigit b = false ∧ b ≠ octet '.' ∧ b ≠ octet 'e' ∧ b ≠ octet 'E') :
    Delimited (b :: rest) := by
  intro b' hb'
  obtain rfl := Option.some.inj hb'
  exact h

theorem delimited_space : ∀ {b : UInt8}, isSpace b = true →
    isDigit b = false ∧ b ≠ octet '.' ∧ b ≠ octet 'e' ∧ b ≠ octet 'E' := by
  intro b hb
  simp only [isSpace, Bool.or_eq_true, decide_eq_true_eq] at hb
  rcases hb with ((rfl | rfl) | rfl) | rfl <;> decide

/-- White space delimits, and so does what it stands in front of. -/
theorem Gap.delimited {gap rest : Bytes} (hgap : Gap gap) (hrest : Delimited rest) :
    Delimited (gap ++ rest) := by
  cases gap with
  | nil => exact hrest
  | cons b gap => exact delimited_cons (delimited_space (hgap b List.mem_cons_self))

/-- All octets of a class in front are read. -/
theorem run_append {isMember : UInt8 → Bool} {members rest : Bytes}
    (hmembers : ∀ b ∈ members, isMember b = true)
    (hrest : ∀ b, rest.head? = some b → isMember b = false) (offset : Nat) :
    Scan.run isMember ⟨offset, members ++ rest⟩
      = .ok (members, ⟨offset + members.length, rest⟩) := by
  have hnone : rest.takeWhile isMember = [] := by
    cases rest with
    | nil => rfl
    | cons b rest => rw [List.takeWhile_cons, hrest b rfl]; rfl
  rw [Scan.run, List.takeWhile_append_of_pos hmembers, hnone, List.append_nil,
    List.drop_left' rfl]

theorem skipSpace_append {gap rest : Bytes} (hgap : Gap gap)
    (hrest : ∀ b, rest.head? = some b → isSpace b = false) (offset : Nat) :
    skipSpace ⟨offset, gap ++ rest⟩ = .ok (rest.head?, ⟨offset + gap.length, rest⟩) := by
  rw [skipSpace, state_bind_apply, run_append hgap hrest]
  rfl

theorem skipSpace_cons {gap rest : Bytes} {b : UInt8} (hgap : Gap gap) (hb : isSpace b = false)
    (offset : Nat) :
    skipSpace ⟨offset, gap ++ b :: rest⟩ = .ok (some b, ⟨offset + gap.length, b :: rest⟩) := by
  refine skipSpace_append hgap ?_ offset
  intro b' hb'
  obtain rfl := Option.some.inj hb'
  exact hb

/-! ## Steps -/

section Steps

variable {α β : Type} {text text' : Bytes} {a : α}

theorem reads_pure (a : α) : (pure a : Scan α).Reads [] a := fun _ _ _ => rfl

/-- What is read one after the other, where the second text delimits the first. -/
theorem Scan.Reads.bind {x : Scan α} {f : α → Scan β} {b : β} (hx : x.Reads text a)
    (hf : (f a).Reads text' b) (hnext : ∀ rest, Delimited rest → Delimited (text' ++ rest)) :
    (x >>= f).Reads (text ++ text') b := by
  intro offset rest hrest
  rw [List.append_assoc, List.length_append, ← Nat.add_assoc]
  exact state_bind_eq_ok.2 ⟨a, _, hx offset _ (hnext rest hrest), hf _ rest hrest⟩

theorem Scan.Reads.map {x : Scan α} (hx : x.Reads text a) (f : α → β) :
    (x >>= fun a => pure (f a)).Reads text (f a) := by
  have h : (x >>= fun a => pure (f a)).Reads (text ++ []) (f a) :=
    hx.bind (reads_pure (f a)) fun _ hrest => hrest
  rwa [List.append_nil] at h

theorem reads_skip {f : Unit → Scan α} (h : (f ()).Reads text a) (b : UInt8) :
    (Scan.skip 1 >>= f).Reads (b :: text) a := by
  intro offset rest hrest
  rw [List.length_cons, Nat.add_comm text.length, ← Nat.add_assoc]
  exact state_bind_eq_ok.2 ⟨(), _, rfl, h (offset + 1) rest hrest⟩

theorem reads_peek {f : Option UInt8 → Scan α} {b : UInt8} (h : (f (some b)).Reads (b :: text) a) :
    (Scan.peek >>= f).Reads (b :: text) a := fun offset rest hrest =>
  state_bind_eq_ok.2 ⟨some b, _, rfl, h offset rest hrest⟩

/-- What is read may depend on how much is left, which is at least what is read. -/
theorem reads_remaining {f : Nat → Scan α} (h : ∀ n, text.length ≤ n → (f n).Reads text a) :
    (Scan.remaining >>= f).Reads text a := by
  intro offset rest hrest
  have hle : text.length ≤ (text ++ rest).length := (List.prefix_append text rest).length_le
  exact state_bind_eq_ok.2 ⟨_, _, rfl, h _ hle offset rest hrest⟩

/-- White space is read over, and what is read then may depend on the next octet. -/
theorem reads_skipSpace {f : Option UInt8 → Scan α} {gap : Bytes} {b : UInt8} (hgap : Gap gap)
    (hb : isSpace b = false) (h : (f (some b)).Reads (b :: text) a) :
    (skipSpace >>= f).Reads (gap ++ b :: text) a := by
  intro offset rest hrest
  rw [List.append_assoc, List.length_append, ← Nat.add_assoc]
  exact state_bind_eq_ok.2 ⟨some b, _, skipSpace_cons hgap hb offset, h _ rest hrest⟩

end Steps

/-! ## Numbers -/

theorem octet_digitChar : ∀ d < 10, isDigit (octet (Nat.digitChar d)) = true
    ∧ digitValue (octet (Nat.digitChar d)) = d := by
  decide

theorem octet_digitChar_eq_zero : ∀ d < 10, octet (Nat.digitChar d) = octet '0' → d = 0 := by
  decide

theorem withDigit?_of_lt {m : Nat} {d : UInt8} (h : m * 10 + digitValue d < UInt64.size) :
    withDigit? m d = some (m * 10 + digitValue d) := by
  unfold withDigit?
  exact if_pos h

/-- One more digit behind digits that fit. -/
theorem integerDigits_concat {significand m n : Nat} {digits : Bytes} {d : UInt8}
    (h : Parts.integerDigits significand digits = ⟨m, 0⟩) (hd : withDigit? m d = some n) :
    Parts.integerDigits significand (digits ++ [d]) = ⟨n, 0⟩ := by
  induction digits generalizing significand with
  | nil =>
    rw [Parts.integerDigits] at h
    obtain ⟨rfl, -⟩ := Parts.mk.inj h
    rw [List.nil_append, Parts.integerDigits, hd]
    rfl
  | cons first rest ih =>
    rw [Parts.integerDigits] at h
    rw [List.cons_append, Parts.integerDigits]
    split at h
    · exact ih h
    · -- a digit that did not fit would have raised the exponent
      obtain ⟨-, hexponent⟩ := Parts.mk.inj h
      simp only [Int.ofNat_eq_natCast] at hexponent
      omega

/-- The octets of a numeral: a first digit, not a zero unless it is alone, and the digits behind
    it. -/
structure Numeral (n : Nat) (first : UInt8) (digits : Bytes) : Prop where
  isDigit_first : isDigit first = true
  isDigit_rest : ∀ d ∈ digits, isDigit d = true
  eq_zero : first = octet '0' → n = 0
  alone : n = 0 → digits = []
  value : Parts.integerDigits (digitValue first) digits = ⟨n, 0⟩

/-- A number that fits 64 bits is written as a numeral. -/
theorem exists_numeral {n : Nat} (h : n < UInt64.size) :
    ∃ first digits, (Nat.toDigits 10 n).map octetOf = first :: digits ∧ Numeral n first digits := by
  induction n using Nat.strongRecOn with
  | ind n ih =>
    rcases Nat.lt_or_ge n 10 with hlt | hge
    · refine ⟨octet (Nat.digitChar n), [], by rw [Nat.toDigits_of_lt_base hlt]; rfl, ?_⟩
      obtain ⟨hdigit, hvalue⟩ := octet_digitChar n hlt
      exact {
        isDigit_first := hdigit
        isDigit_rest := by simp
        eq_zero := octet_digitChar_eq_zero n hlt
        alone := fun _ => rfl
        value := by rw [Parts.integerDigits, hvalue] }
    · obtain ⟨first, digits, hmap, hnumeral⟩ := ih (n / 10) (by omega) (by omega)
      obtain ⟨hdigit, hvalue⟩ := octet_digitChar (n % 10) (by omega)
      refine ⟨first, digits ++ [octet (Nat.digitChar (n % 10))], ?_, ?_⟩
      · rw [Nat.toDigits_of_base_le (by decide) hge, List.map_append, hmap]
        rfl
      · have hsum : n / 10 * 10 + digitValue (octet (Nat.digitChar (n % 10))) = n := by
          rw [hvalue]
          omega
        have hfits := withDigit?_of_lt (Nat.lt_of_le_of_lt (Nat.le_of_eq hsum) h)
        rw [hsum] at hfits
        exact {
          isDigit_first := hnumeral.isDigit_first
          isDigit_rest := by simpa [or_imp, forall_and, hdigit] using hnumeral.isDigit_rest
          eq_zero := fun hzero => by
            have := hnumeral.eq_zero hzero
            omega
          alone := by omega
          value := integerDigits_concat hnumeral.value hfits }

theorem utf8_repr (n : Nat) : utf8 (Nat.repr n) = (Nat.toDigits 10 n).map octetOf := by
  refine Text.utf8_ofList fun c hc => ?_
  have hdigit := Nat.isDigit_of_mem_toDigits (by decide) (by decide) hc
  simp only [Char.isDigit, Bool.and_eq_true, decide_eq_true_eq] at hdigit
  exact Nat.lt_of_le_of_lt (UInt32.le_iff_toNat_le.1 hdigit.2) (by decide)

/-- A number ends where no digit, point or exponent follows. -/
theorem finish_of_delimited {rest : Bytes} (hrest : Delimited rest) (negative : Bool)
    (first : UInt8) (n offset : Nat) :
    (do
      match ← Scan.peek with
      | some b =>
        if first = octet '0' ∧ isDigit b then Scan.failAtNext .invalidNumber
        else if b = octet '.' then parseFraction negative ⟨n, 0⟩
        else if b = octet 'e' ∨ b = octet 'E' then parseExponent negative ⟨n, 0⟩
        else parseNumber.finish negative ⟨n, 0⟩
      | none => parseNumber.finish negative ⟨n, 0⟩ : Scan JsonNumber) ⟨offset, rest⟩
      = .ok (JsonNumber.ofInteger negative n, ⟨offset, rest⟩) := by
  cases rest with
  | nil => rfl
  | cons b rest =>
    obtain ⟨hdigit, hpoint, hsmall, hcapital⟩ := hrest b rfl
    refine state_bind_eq_ok.2 ⟨some b, _, rfl, ?_⟩
    simp only [hdigit, hpoint, hsmall, hcapital, Bool.false_eq_true, and_false, or_self, if_false]
    rfl

theorem reads_parseNumber {n : Nat} (h : n < UInt64.size) (negative : Bool) :
    (parseNumber negative).Reads (utf8 (Nat.repr n)) (JsonNumber.ofInteger negative n) := by
  intro offset rest hrest
  obtain ⟨first, digits, hmap, hnumeral⟩ := exists_numeral h
  have hlength : offset + (first :: digits).length = offset + 1 + digits.length := by
    rw [List.length_cons]
    omega
  have hfirst : ¬¬isDigit first = true := by simp [hnumeral.isDigit_first]
  rw [utf8_repr, hmap, hlength, parseNumber]
  refine state_bind_eq_ok.2 ⟨some first, ⟨offset + 1, digits ++ rest⟩, rfl, ?_⟩
  simp only [if_neg hfirst]
  split
  · next hzero =>
    -- nothing may follow a leading zero
    obtain rfl := hnumeral.alone (hnumeral.eq_zero hzero)
    refine state_bind_eq_ok.2 ⟨[], ⟨offset + 1, rest⟩, rfl, ?_⟩
    rw [hnumeral.value]
    exact finish_of_delimited hrest negative first n _
  · refine state_bind_eq_ok.2 ⟨digits, _,
      run_append hnumeral.isDigit_rest (fun b hb => (hrest b hb).1) _, ?_⟩
    rw [hnumeral.value]
    exact finish_of_delimited hrest negative first n _

/-! ## Strings -/

/-- The octets of a character as it stands in a string. -/
def escapedOctets (c : Char) : Bytes := (escapedChar c).flatMap String.utf8EncodeChar

theorem utf8_quoted (s : String) :
    utf8 (quoted s) = octet '"' :: s.toList.flatMap escapedOctets ++ [octet '"'] := by
  rw [Text.utf8_eq_flatMap, quoted, String.toList_ofList]
  simp only [List.flatMap_append, List.flatMap_cons, List.flatMap_assoc, List.cons_append]
  rfl

theorem hexValue?_digitChar : ∀ d < 16, hexValue? (octet (Nat.digitChar d)) = some d := by
  decide

theorem parseHexEscape_control {n : Nat} (h : n < 32) (offset : Nat) (rest : Bytes) :
    parseHexEscape ⟨offset, octet '0' :: octet '0' :: octet (Nat.digitChar (n / 16))
      :: octet (Nat.digitChar (n % 16)) :: rest⟩ = .ok (n, ⟨offset + 4, rest⟩) := by
  have hhigh := hexValue?_digitChar (n / 16) (by omega)
  have hlow := hexValue?_digitChar (n % 16) (by omega)
  have hzero : hexValue? (octet '0') = some 0 := by decide
  have hvalue : n / 16 * 16 + n % 16 = n := by omega
  refine state_bind_eq_ok.2 ⟨_, _, rfl, ?_⟩
  rw [if_neg (by simp)]
  simp [hzero, hhigh, hlow, hvalue]

theorem parseEscape_control {c : Char} (h : c.toNat < 32) (offset : Nat) (rest : Bytes) :
    parseEscape ⟨offset, octet 'u' :: octet '0' :: octet '0' :: octet (Nat.digitChar (c.toNat / 16))
      :: octet (Nat.digitChar (c.toNat % 16)) :: rest⟩
      = .ok (String.utf8EncodeChar c, ⟨offset + 5, rest⟩) := by
  have hpoint : parseCodePoint ⟨offset + 1, octet '0' :: octet '0'
      :: octet (Nat.digitChar (c.toNat / 16)) :: octet (Nat.digitChar (c.toNat % 16)) :: rest⟩
      = .ok (c.toNat, ⟨offset + 1 + 4, rest⟩) := by
    refine state_bind_eq_ok.2 ⟨_, _, parseHexEscape_control h _ rest, ?_⟩
    rw [if_neg (by omega), if_pos (by omega)]
    rfl
  refine state_bind_eq_ok.2 ⟨_, _, rfl, state_bind_eq_ok.2 ⟨_, _, hpoint, ?_⟩⟩
  rw [Char.ofNat_toNat, Text.utf8_eq_flatMap]
  simp [state_pure_apply]

theorem isPlain_iff {b : UInt8} :
    isPlain b = true ↔ 32 ≤ b.toNat ∧ b.toNat ≠ 34 ∧ b.toNat ≠ 92 := by
  have hquote : octet '"' = 34 := rfl
  have hslash : octet '\\' = 92 := rfl
  simp [isPlain, hquote, hslash, UInt8.le_iff_toNat_le, ← UInt8.toNat_inj, and_assoc]

/-- Plain octets in front of a string's rest are taken as they are. -/
theorem parseStringPieces_append {plain text bytes : Bytes} {pieces offset : Nat} {c : Cursor}
    (hplain : ∀ b ∈ plain, isPlain b = true)
    (h : parseStringPieces (pieces + 1) ⟨offset + plain.length, text⟩ = .ok (bytes, c)) :
    parseStringPieces (pieces + 1) ⟨offset, plain ++ text⟩ = .ok (plain ++ bytes, c) := by
  obtain ⟨run, behind, hrun, h⟩ := state_bind_eq_ok.1 h
  have hrun' : Scan.run isPlain ⟨offset, plain ++ text⟩ = .ok (plain ++ run, behind) := by
    simp only [Scan.run, Except.ok.injEq, Prod.mk.injEq] at hrun ⊢
    obtain ⟨rfl, rfl⟩ := hrun
    rw [List.takeWhile_append_of_pos hplain]
    simp [Nat.add_assoc]
  obtain ⟨next, c', hnext, h⟩ := state_bind_eq_ok.1 h
  refine state_bind_eq_ok.2 ⟨_, _, hrun', state_bind_eq_ok.2 ⟨next, c', hnext, ?_⟩⟩
  cases next with
  | none => cases h
  | some b =>
    simp only at h ⊢
    split at h
    · next hquote =>
      rw [if_pos hquote]
      obtain ⟨rfl, rfl⟩ := state_pure_eq_ok.1 h
      rfl
    · next hquote =>
      rw [if_neg hquote]
      split at h
      · next hslash =>
        rw [if_pos hslash]
        obtain ⟨escaped, c₁, hescaped, h⟩ := state_bind_eq_ok.1 h
        obtain ⟨others, c₂, hothers, h⟩ := state_bind_eq_ok.1 h
        obtain ⟨rfl, rfl⟩ := state_pure_eq_ok.1 h
        refine state_bind_eq_ok.2 ⟨_, _, hescaped, state_bind_eq_ok.2 ⟨_, _, hothers, ?_⟩⟩
        simp [state_pure_apply]
      · cases h

/-- A character stands for itself in a string, or behind a backslash for what is read there. -/
theorem escapedOctets_cases (c : Char) :
    (escapedOctets c = String.utf8EncodeChar c ∧ ∀ b ∈ String.utf8EncodeChar c, isPlain b = true)
      ∨ ∃ escape, escapedOctets c = octet '\\' :: escape ∧ ∀ offset rest,
        parseEscape ⟨offset, escape ++ rest⟩
          = .ok (String.utf8EncodeChar c, ⟨offset + escape.length, rest⟩) := by
  have hcontrol : ∀ n, c.toNat = n → c = Char.ofNat n := by
    rintro n rfl
    exact c.ofNat_toNat.symm
  unfold escapedOctets escapedChar
  split_ifs with hquote hslash hline hreturn htab hback hform hlow
  · exact Or.inr ⟨[octet '"'], rfl, fun _ _ => by rw [hquote]; rfl⟩
  · exact Or.inr ⟨[octet '\\'], rfl, fun _ _ => by rw [hslash]; rfl⟩
  · exact Or.inr ⟨[octet 'n'], rfl, fun _ _ => by rw [hline]; rfl⟩
  · exact Or.inr ⟨[octet 'r'], rfl, fun _ _ => by rw [hreturn]; rfl⟩
  · exact Or.inr ⟨[octet 't'], rfl, fun _ _ => by rw [htab]; rfl⟩
  · exact Or.inr ⟨[octet 'b'], rfl, fun _ _ => by rw [hcontrol 8 hback]; rfl⟩
  · exact Or.inr ⟨[octet 'f'], rfl, fun _ _ => by rw [hcontrol 12 hform]; rfl⟩
  · have hdigit : ∀ d < 16,
        String.utf8EncodeChar (Nat.digitChar d) = [octet (Nat.digitChar d)] := by
      decide
    refine Or.inr ⟨[octet 'u', octet '0', octet '0', octet (Nat.digitChar (c.toNat / 16)),
      octet (Nat.digitChar (c.toNat % 16))], ?_, fun offset rest => ?_⟩
    · simp only [List.flatMap_cons, hdigit (c.toNat / 16) (by omega),
        hdigit (c.toNat % 16) (by omega)]
      rfl
    · exact parseEscape_control hlow offset rest
  · refine Or.inl ⟨List.append_nil _, fun b hb => isPlain_iff.2 ?_⟩
    rcases Nat.lt_or_ge c.toNat 128 with hlt | hge
    · rw [Text.utf8EncodeChar_of_lt hlt, List.mem_singleton] at hb
      have hoctet : b.toNat = c.toNat := by
        rw [hb, octetOf, UInt8.toNat_ofNat', Nat.mod_eq_of_lt (by omega)]
      rw [hoctet]
      exact ⟨Nat.le_of_not_lt hlow, fun h => hquote (hcontrol 34 h),
        fun h => hslash (hcontrol 92 h)⟩
    · have hwide := Text.le_of_mem_utf8EncodeChar hge hb
      omega

theorem parseStringPieces_escaped (cs : List Char) {pieces : Nat} (h : cs.length < pieces)
    (offset : Nat) (rest : Bytes) :
    parseStringPieces pieces ⟨offset, cs.flatMap escapedOctets ++ octet '"' :: rest⟩
      = .ok (cs.flatMap String.utf8EncodeChar,
          ⟨offset + (cs.flatMap escapedOctets).length + 1, rest⟩) := by
  induction cs generalizing pieces offset with
  | nil =>
    cases pieces with
    | zero => cases h
    | succ pieces => rfl
  | cons c cs ih =>
    cases pieces with
    | zero => cases h
    | succ pieces =>
      rw [List.flatMap_cons, List.flatMap_cons, List.append_assoc, List.length_append]
      rcases escapedOctets_cases c with ⟨hself, hplain⟩ | ⟨escape, hescape, hread⟩
      · rw [hself]
        refine parseStringPieces_append hplain ?_
        rw [ih (Nat.lt_of_succ_lt h), Nat.add_assoc offset]
      · rw [hescape]
        refine state_bind_eq_ok.2 ⟨[], _, rfl, state_bind_eq_ok.2 ⟨_, _, rfl, ?_⟩⟩
        refine state_bind_eq_ok.2 ⟨_, _, hread _ _, state_bind_eq_ok.2 ⟨_, _, ih ?_ _, ?_⟩⟩
        · exact Nat.lt_of_succ_lt_succ h
        · have hstop : ∀ text, List.takeWhile isPlain (octet '\\' :: text) = [] := fun _ => rfl
          rw [state_pure_apply]
          simp [hstop, Nat.add_assoc, Nat.add_comm, Nat.add_left_comm]

theorem length_le_length_escaped (cs : List Char) :
    cs.length ≤ (cs.flatMap escapedOctets).length := by
  induction cs with
  | nil => exact Nat.le_refl 0
  | cons c cs ih =>
    have hpos : 0 < (escapedOctets c).length := by
      rcases escapedOctets_cases c with ⟨hself, -⟩ | ⟨escape, hescape, -⟩
      · rw [hself, String.length_utf8EncodeChar]
        exact c.utf8Size_pos
      · rw [hescape]
        exact Nat.succ_pos _
    rw [List.flatMap_cons, List.length_append, List.length_cons]
    omega

/-- A string is read up to its closing quote, from behind its opening one. -/
theorem reads_parseString (s : String) :
    parseString.Reads (s.toList.flatMap escapedOctets ++ [octet '"']) s := by
  intro offset rest _
  rw [List.append_assoc, List.length_append]
  have hle := length_le_length_escaped s.toList
  have hpieces : s.toList.length
      < (s.toList.flatMap escapedOctets ++ ([octet '"'] ++ rest)).length + 1 := by
    rw [List.length_append]
    omega
  refine state_bind_eq_ok.2 ⟨_, _, rfl, state_bind_eq_ok.2
    ⟨_, _, parseStringPieces_escaped s.toList hpieces offset rest, ?_⟩⟩
  rw [← Text.utf8_eq_flatMap, Text.ofUtf8?_utf8]
  rfl

end SealedEnvelope.Json
