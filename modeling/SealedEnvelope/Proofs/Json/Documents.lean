import SealedEnvelope.Proofs.Json.Merge
import SealedEnvelope.Proofs.Json.Tokens

set_option autoImplicit false

/-! # Documents in a text

`IsText` says which texts a document has: its tokens as they are written, with any white space
between them. Every text of a document is read back as it (`parse_isText`), and both ways to write
a document, on one line or over several, give a text of it (`parse_compact`, `parse_pretty`). This
is about documents whose objects list no name twice, whose numbers are integers of 64 bits, and
that nest no deeper than is read. -/

namespace SealedEnvelope

/-- Integers of 64 bits, with the sign in its place. -/
def JsonNumber.IsInteger : JsonNumber → Prop
  | natural _ => True
  | negative n => 0 < n.toNat ∧ n.toNat ≤ 1 <<< 63
  | double _ => False

namespace Json

open Text (utf8)

/-! ## Texts of lists -/

section Lists

variable {α : Type}

/-- What follows an item of a list: further items behind a comma each, and the closing bracket. -/
def TailText (close : UInt8) (text : α → Bytes → Prop) : List α → Bytes → Prop
  | [], t => ∃ gap, Gap gap ∧ t = gap ++ [close]
  | a :: rest, t => ∃ gap gap' item tail, Gap gap ∧ Gap gap' ∧ text a item
    ∧ TailText close text rest tail ∧ t = gap ++ octet ',' :: (gap' ++ (item ++ tail))

/-- What follows the opening bracket of a list. -/
def ListText (close : UInt8) (text : α → Bytes → Prop) : List α → Bytes → Prop
  | [], t => ∃ gap, Gap gap ∧ t = gap ++ [close]
  | a :: rest, t => ∃ gap item tail, Gap gap ∧ text a item ∧ TailText close text rest tail
    ∧ t = gap ++ (item ++ tail)

end Lists

/-- The text of a member, given the texts of values. -/
def MemberText (text : Json → Bytes → Prop) (m : String × Json) (t : Bytes) : Prop :=
  ∃ gap gap' value, Gap gap ∧ Gap gap' ∧ text m.2 value
    ∧ t = utf8 (quoted m.1) ++ (gap ++ octet ':' :: (gap' ++ value))

/-- The text of a value, given the texts of what it holds if it may hold others. -/
def ValueText (nested : Option (Json → Bytes → Prop)) : Json → Bytes → Prop
  | .array items, t => ∃ text ∈ nested, ∃ list, ListText (octet ']') text items list
    ∧ t = octet '[' :: list
  | .object members, t => ∃ text ∈ nested, ∃ list,
    ListText (octet '\x7d') (MemberText text) members list ∧ t = octet '\x7b' :: list
  | .number n, t => n.IsInteger ∧ t = utf8 (numberText n)
  | value, t => t = utf8 (scalarText value)

/-- The texts of a document that nests at most `depth` levels deep. -/
def IsText : (depth : Nat) → Json → Bytes → Prop
  | 0 => ValueText none
  | depth + 1 => ValueText (some (IsText depth))

/-! ## Where a text begins and ends -/

/-- The text begins with a token, and not with one that closes a list. -/
def Opens (t : Bytes) : Prop :=
  ∃ b rest, t = b :: rest ∧ isSpace b = false ∧ b ≠ octet ']'

theorem TailText.delimited {α : Type} {close : UInt8} {text : α → Bytes → Prop} {as : List α}
    {t : Bytes} (ht : TailText close text as t)
    (hclose : close = octet ']' ∨ close = octet '\x7d') (rest : Bytes) :
    Delimited (t ++ rest) := by
  cases as with
  | nil =>
    obtain ⟨gap, hgap, rfl⟩ := ht
    rw [List.append_assoc]
    refine hgap.delimited (delimited_cons ?_)
    rcases hclose with rfl | rfl <;> decide
  | cons a as =>
    obtain ⟨gap, _, _, _, hgap, _, _, _, rfl⟩ := ht
    rw [List.append_assoc]
    exact hgap.delimited (delimited_cons (by decide))

theorem TailText.length_lt {α : Type} {close : UInt8} {text : α → Bytes → Prop} {as : List α}
    {t : Bytes} (ht : TailText close text as t) : as.length < t.length := by
  induction as generalizing t with
  | nil =>
    obtain ⟨gap, -, rfl⟩ := ht
    simp
  | cons a as ih =>
    obtain ⟨gap, gap', item, tail, -, -, -, htail, rfl⟩ := ht
    have := ih htail
    simp only [List.length_append, List.length_cons]
    omega

/-! ## Reading lists -/

/-- Every text of a value is read as the value, and begins as a value does. -/
def ReadsTexts (item : Scan Json) (text : Json → Bytes → Prop) (value : Json) : Prop :=
  ∀ t, text value t → Opens t ∧ ∀ gap, Gap gap → item.Reads (gap ++ t) value

section Items

variable {item : Scan Json} {text : Json → Bytes → Prop} {t : Bytes}

/-- Behind an item, the further items are read up to the closing bracket. -/
theorem reads_parseItems_tail {items : List Json}
    (hitem : ∀ value ∈ items, ReadsTexts item text value)
    (ht : TailText (octet ']') text items t) {count : Nat} (hcount : items.length < count) :
    (parseItems item false count).Reads t items := by
  induction items generalizing t count with
  | nil =>
    obtain ⟨gap, hgap, rfl⟩ := ht
    cases count with
    | zero => cases hcount
    | succ count => exact reads_skipSpace hgap (by decide) (reads_skip (reads_pure []) _)
  | cons value items ih =>
    obtain ⟨gap, gap', first, tail, hgap, hgap', hfirst, htail, rfl⟩ := ht
    obtain ⟨⟨b, others, rfl, hspace, hclose⟩, hread⟩ :=
      hitem value List.mem_cons_self first hfirst
    cases count with
    | zero => cases hcount
    | succ count =>
      have hcomma : octet ',' ≠ octet ']' := by decide
      have hitems : ∀ value ∈ items, ReadsTexts item text value := fun value hmem =>
        hitem value (List.mem_cons_of_mem _ hmem)
      have hrest := (ih hitems htail (Nat.lt_of_succ_lt_succ hcount)).map (value :: ·)
      refine reads_skipSpace hgap (by decide) ?_
      simp only [if_neg hcomma, Bool.false_eq_true, not_false_eq_true, if_true, ne_eq,
        not_true_eq_false, if_false]
      -- behind the comma an item has to follow, not the end
      refine reads_skip ?_ _
      rw [List.cons_append]
      refine reads_skipSpace hgap' hspace ?_
      simp only [if_neg hclose]
      exact (hread [] gap_nil).bind hrest fun rest _ => htail.delimited (Or.inl rfl) rest

theorem reads_parseItems {items : List Json} (hitem : ∀ value ∈ items, ReadsTexts item text value)
    (ht : ListText (octet ']') text items t) {count : Nat} (hcount : items.length < count) :
    (parseItems item true count).Reads t items := by
  cases count with
  | zero => cases hcount
  | succ count =>
    cases items with
    | nil =>
      obtain ⟨gap, hgap, rfl⟩ := ht
      exact reads_skipSpace hgap (by decide) (reads_skip (reads_pure []) _)
    | cons value items =>
      obtain ⟨gap, first, tail, hgap, hfirst, htail, rfl⟩ := ht
      obtain ⟨⟨b, others, rfl, hspace, hclose⟩, hread⟩ :=
        hitem value List.mem_cons_self first hfirst
      have hitems : ∀ value ∈ items, ReadsTexts item text value := fun value hmem =>
        hitem value (List.mem_cons_of_mem _ hmem)
      have hrest := (reads_parseItems_tail hitems htail (Nat.lt_of_succ_lt_succ hcount)).map
        (value :: ·)
      rw [List.cons_append]
      refine reads_skipSpace hgap hspace ?_
      simp only [if_neg hclose, not_true_eq_false, if_false]
      exact (hread [] gap_nil).bind hrest fun rest _ => htail.delimited (Or.inl rfl) rest

/-! ## Reading members -/

theorem reads_parseMember {m : String × Json} (hvalue : ReadsTexts item text m.2)
    (ht : MemberText text m t) :
    ∃ behind, t = octet '"' :: behind ∧ (parseMember item).Reads behind m := by
  obtain ⟨gap, gap', value, hgap, hgap', ht, rfl⟩ := ht
  have hcolon : ¬octet ':' ≠ octet ':' := fun h => h rfl
  refine ⟨_, by rw [utf8_quoted, List.cons_append, List.cons_append], ?_⟩
  refine (reads_parseString m.1).bind (reads_skipSpace hgap (by decide) ?_) ?_
  · simp only [if_neg hcolon]
    exact reads_skip (((hvalue value ht).2 gap' hgap').map (Prod.mk m.1)) _
  · intro rest _
    rw [List.append_assoc]
    exact hgap.delimited (delimited_cons (by decide))

/-- A member of a new name joins the others at their end. -/
theorem set_of_not_mem {name : String} {members : Members} (h : name ∉ Members.names members)
    (value : Json) : members.set name value = members ++ [(name, value)] := by
  induction members with
  | nil => rfl
  | cons m rest ih =>
    obtain ⟨hne, hrest⟩ := not_or.1 (mt List.mem_cons.2 h)
    rw [Members.set] at ih ⊢
    rw [Members.alter, if_neg (Ne.symm hne), ih hrest, List.cons_append]

/-- Behind a member, the further members join those already read. -/
theorem reads_parseMembers_tail (read : Members) {members : Members}
    (hitem : ∀ m ∈ members, ReadsTexts item text m.2)
    (hnodup : (Members.names (read ++ members)).Nodup)
    (ht : TailText (octet '\x7d') (MemberText text) members t) {count : Nat}
    (hcount : members.length < count) :
    (parseMembers item false read count).Reads t (read ++ members) := by
  induction members generalizing t count read with
  | nil =>
    obtain ⟨gap, hgap, rfl⟩ := ht
    cases count with
    | zero => cases hcount
    | succ count =>
      rw [List.append_nil]
      exact reads_skipSpace hgap (by decide) (reads_skip (reads_pure read) _)
  | cons m members ih =>
    obtain ⟨gap, gap', first, tail, hgap, hgap', hfirst, htail, rfl⟩ := ht
    obtain ⟨behind, rfl, hread⟩ := reads_parseMember (hitem m List.mem_cons_self) hfirst
    cases count with
    | zero => cases hcount
    | succ count =>
      have hcomma : octet ',' ≠ octet '\x7d' := by decide
      have hquote : octet '"' ≠ octet '\x7d' := by decide
      have hmembers : ∀ m ∈ members, ReadsTexts item text m.2 := fun m hmem =>
        hitem m (List.mem_cons_of_mem _ hmem)
      have hnew : m.1 ∉ Members.names read := by
        rw [Members.names, List.map_append] at hnodup
        exact fun hmem => (List.nodup_append.1 hnodup).2.2 m.1 hmem m.1 List.mem_cons_self rfl
      -- no name is listed twice, so members keep their order
      have hset : read.set m.1 m.2 ++ members = read ++ m :: members := by
        rw [set_of_not_mem hnew, List.append_assoc]
        rfl
      have hrest := ih _ hmembers (by rwa [hset]) htail (Nat.lt_of_succ_lt_succ hcount)
      rw [hset] at hrest
      refine reads_skipSpace hgap (by decide) ?_
      simp only [if_neg hcomma, Bool.false_eq_true, not_false_eq_true, if_true, ne_eq,
        not_true_eq_false, if_false]
      refine reads_skip ?_ _
      rw [List.cons_append]
      refine reads_skipSpace hgap' (by decide) ?_
      simp only [if_neg hquote]
      exact reads_peek (reads_skip (hread.bind hrest fun rest _ =>
        htail.delimited (Or.inr rfl) rest) _)

theorem reads_parseMembers {members : Members} (hitem : ∀ m ∈ members, ReadsTexts item text m.2)
    (hnodup : (Members.names members).Nodup)
    (ht : ListText (octet '\x7d') (MemberText text) members t) {count : Nat}
    (hcount : members.length < count) :
    (parseMembers item true [] count).Reads t members := by
  cases count with
  | zero => cases hcount
  | succ count =>
    cases members with
    | nil =>
      obtain ⟨gap, hgap, rfl⟩ := ht
      exact reads_skipSpace hgap (by decide) (reads_skip (reads_pure []) _)
    | cons m members =>
      obtain ⟨gap, first, tail, hgap, hfirst, htail, rfl⟩ := ht
      obtain ⟨behind, rfl, hread⟩ := reads_parseMember (hitem m List.mem_cons_self) hfirst
      have hquote : octet '"' ≠ octet '\x7d' := by decide
      have hmembers : ∀ m ∈ members, ReadsTexts item text m.2 := fun m hmem =>
        hitem m (List.mem_cons_of_mem _ hmem)
      have hrest := reads_parseMembers_tail [m] hmembers hnodup htail
        (Nat.lt_of_succ_lt_succ hcount)
      rw [List.cons_append]
      refine reads_skipSpace hgap (by decide) ?_
      simp only [if_neg hquote, not_true_eq_false, if_false]
      exact reads_peek (reads_skip (hread.bind hrest fun rest _ =>
        htail.delimited (Or.inr rfl) rest) _)

end Items

/-! ## Reading documents -/

theorem ListText.length_lt {α : Type} {close : UInt8} {text : α → Bytes → Prop} {as : List α}
    {t : Bytes} (ht : ListText close text as t) : as.length < t.length + 1 := by
  cases as with
  | nil => exact Nat.succ_pos _
  | cons a as =>
    obtain ⟨gap, item, tail, -, -, htail, rfl⟩ := ht
    have := htail.length_lt
    simp only [List.length_append, List.length_cons]
    omega

theorem ne_octet_of_isDigit {b : UInt8} (hb : isDigit b = true) {c : Char}
    (hc : isDigit (octet c) = false) : b ≠ octet c := by
  rintro rfl
  exact Bool.false_ne_true (hc.symm.trans hb)

theorem isSpace_of_isDigit {b : UInt8} (hb : isDigit b = true) : isSpace b = false := by
  have hne : ∀ c, isDigit (octet c) = false → b ≠ octet c := fun _ hc => ne_octet_of_isDigit hb hc
  simp only [isSpace, Bool.or_eq_false_iff, decide_eq_false_iff_not]
  exact ⟨⟨⟨hne ' ' (by decide), hne '\t' (by decide)⟩, hne '\n' (by decide)⟩, hne '\r' (by decide)⟩

/-- The text of an integer of 64 bits begins with a digit. -/
theorem exists_digit (n : UInt64) :
    ∃ first digits, utf8 (Nat.repr n.toNat) = first :: digits ∧ isDigit first = true := by
  obtain ⟨first, digits, hmap, hnumeral⟩ := exists_numeral n.toNat_lt
  exact ⟨first, digits, (utf8_repr _).trans hmap, hnumeral.isDigit_first⟩

theorem ofInteger_natural (n : UInt64) : JsonNumber.ofInteger false n.toNat = .natural n := by
  rw [JsonNumber.ofInteger, if_pos Bool.false_ne_true, UInt64.ofNat_toNat]

theorem ofInteger_negative {n : UInt64} (h : (JsonNumber.negative n).IsInteger) :
    JsonNumber.ofInteger true n.toNat = .negative n := by
  have hrange : 0 < n.toNat ∧ n.toNat ≤ 1 <<< 63 := h
  rw [JsonNumber.ofInteger, if_neg (not_not_intro rfl), if_pos hrange, UInt64.ofNat_toNat]

section Values

variable {nested : Option (Scan Json)} {texts : Option (Json → Bytes → Prop)} {t gap : Bytes}

theorem opens_valueText {value : Json} (h : ValueText texts value t) : Opens t := by
  cases value with
  | null => exact ⟨octet 'n', _, h, by decide⟩
  | bool b => cases b with
    | false => exact ⟨octet 'f', _, h, by decide⟩
    | true => exact ⟨octet 't', _, h, by decide⟩
  | number n =>
    obtain ⟨hn, rfl⟩ := h
    cases n with
    | natural n =>
      obtain ⟨first, digits, htext, hdigit⟩ := exists_digit n
      exact ⟨first, digits, htext, isSpace_of_isDigit hdigit,
        ne_octet_of_isDigit hdigit (by decide)⟩
    | negative n => exact ⟨octet '-', _, Text.utf8_append _ _, by decide⟩
    | double bits => cases hn
  | string s => exact ⟨octet '"', _, h.trans (utf8_quoted s), by decide⟩
  | array items =>
    obtain ⟨_, _, list, _, rfl⟩ := h
    exact ⟨octet '[', list, rfl, by decide⟩
  | object members =>
    obtain ⟨_, _, list, _, rfl⟩ := h
    exact ⟨octet '\x7b', list, rfl, by decide⟩

theorem reads_number {n : JsonNumber} (hn : n.IsInteger) (hgap : Gap gap) :
    (parseValueWith nested).Reads (gap ++ utf8 (numberText n)) (.number n) := by
  cases n with
  | natural n =>
    obtain ⟨first, digits, htext, hdigit⟩ := exists_digit n
    have hne : ∀ c, isDigit (octet c) = false → first ≠ octet c := fun _ hc =>
      ne_octet_of_isDigit hdigit hc
    have hread := (reads_parseNumber n.toNat_lt false).map Json.number
    rw [ofInteger_natural, htext] at hread
    rw [numberText, htext]
    refine reads_skipSpace hgap (isSpace_of_isDigit hdigit) ?_
    simp only [hne 'n' (by decide), hne 't' (by decide), hne 'f' (by decide), hne '-' (by decide),
      hdigit, if_true, if_false]
    exact hread
  | negative n =>
    have hread := (reads_parseNumber n.toNat_lt true).map Json.number
    have hsign : utf8 (numberText (.negative n)) = octet '-' :: utf8 (Nat.repr n.toNat) :=
      Text.utf8_append _ _
    rw [ofInteger_negative hn] at hread
    rw [hsign]
    exact reads_skipSpace hgap (by decide) (reads_skip hread _)
  | double bits => cases hn

theorem reads_string (s : String) (hgap : Gap gap) :
    (parseValueWith nested).Reads (gap ++ utf8 (quoted s)) (.string s) := by
  rw [utf8_quoted, List.cons_append]
  exact reads_skipSpace hgap (by decide) (reads_skip ((reads_parseString s).map Json.string) _)

theorem reads_array {item : Scan Json} {text : Json → Bytes → Prop} {items : List Json}
    (hitem : ∀ value ∈ items, ReadsTexts item text value)
    (ht : ListText (octet ']') text items t) (hgap : Gap gap) :
    (parseValueWith (some item)).Reads (gap ++ octet '[' :: t) (.array items) := by
  refine reads_skipSpace hgap (by decide) (reads_skip (reads_remaining fun n hn => ?_) _)
  have hcount : items.length < n + 1 := Nat.lt_of_lt_of_le ht.length_lt (Nat.succ_le_succ hn)
  exact (reads_parseItems hitem ht hcount).map Json.array

theorem reads_object {item : Scan Json} {text : Json → Bytes → Prop} {members : Members}
    (hitem : ∀ m ∈ members, ReadsTexts item text m.2) (hnodup : (Members.names members).Nodup)
    (ht : ListText (octet '\x7d') (MemberText text) members t) (hgap : Gap gap) :
    (parseValueWith (some item)).Reads (gap ++ octet '\x7b' :: t) (.object members) := by
  refine reads_skipSpace hgap (by decide) (reads_skip (reads_remaining fun n hn => ?_) _)
  have hcount : members.length < n + 1 := Nat.lt_of_lt_of_le ht.length_lt (Nat.succ_le_succ hn)
  exact (reads_parseMembers hitem hnodup ht hcount).map Json.object

/-- A value is read from its texts if what it holds is read from its texts. -/
theorem reads_valueText {value : Json} (hvalue : value.Distinct)
    (hnested : ∀ text ∈ texts, ∃ item ∈ nested, ∀ value : Json, value.Distinct →
      ReadsTexts item text value) :
    ReadsTexts (parseValueWith nested) (ValueText texts) value := by
  intro t ht
  refine ⟨opens_valueText ht, fun gap hgap => ?_⟩
  cases value with
  | null =>
    obtain rfl := ht
    exact reads_skipSpace hgap (by decide) fun _ _ _ => rfl
  | bool b =>
    obtain rfl := ht
    cases b with
    | false => exact reads_skipSpace hgap (by decide) fun _ _ _ => rfl
    | true => exact reads_skipSpace hgap (by decide) fun _ _ _ => rfl
  | number n =>
    obtain ⟨hn, rfl⟩ := ht
    exact reads_number hn hgap
  | string s =>
    obtain rfl := ht
    exact reads_string s hgap
  | array items =>
    obtain ⟨text, htext, list, hlist, rfl⟩ := ht
    obtain ⟨item, rfl, hread⟩ := hnested text htext
    exact reads_array (fun value hmem => hread value (distinct_array_iff.1 hvalue value hmem))
      hlist hgap
  | object members =>
    obtain ⟨text, htext, list, hlist, rfl⟩ := ht
    obtain ⟨item, rfl, hread⟩ := hnested text htext
    obtain ⟨hnodup, hmembers⟩ := distinct_object_iff.1 hvalue
    exact reads_object (fun m hmem => hread m.2 (hmembers m hmem)) hnodup hlist hgap

end Values

theorem reads_parseValue {depth : Nat} {value : Json} (hvalue : value.Distinct) :
    ReadsTexts (parseValue depth) (IsText depth) value := by
  induction depth generalizing value with
  | zero => exact reads_valueText hvalue nofun
  | succ depth ih =>
    refine reads_valueText hvalue ?_
    rintro _ ⟨⟩
    exact ⟨_, rfl, fun value hvalue => ih hvalue⟩

/-- Every text of a document is read back as it, with white space around it. -/
theorem parse_isText {value : Json} (hvalue : value.Distinct) {t gap gap' : Bytes}
    (ht : IsText 127 value t) (hgap : Gap gap) (hgap' : Gap gap') :
    parse (gap ++ t ++ gap') = .ok value := by
  have hread := (reads_parseValue hvalue t ht).2 gap hgap 0 gap'
    (by simpa using hgap'.delimited delimited_nil)
  have hempty : ∀ b, ([] : Bytes).head? = some b → isSpace b = false := nofun
  have hend := skipSpace_append hgap' hempty (0 + (gap ++ t).length)
  rw [List.append_nil] at hend
  exact map_eq_ok.2 ⟨_, state_bind_eq_ok.2 ⟨_, _, hread, state_bind_eq_ok.2 ⟨_, _, hend, rfl⟩⟩, rfl⟩


/-! ## Writing lists -/

section Lines

variable {α : Type} {close : UInt8} {text : α → Bytes → Prop} {line : α → String}
  {space space' : String}

theorem tailText_lines {as : List α} (h : ∀ a ∈ as, text a (utf8 (line a)))
    (hspace : Gap (utf8 space)) (hspace' : Gap (utf8 space')) :
    TailText close text as (as.flatMap (fun a => octet ',' :: (utf8 space ++ utf8 (line a)))
      ++ (utf8 space' ++ [close])) := by
  induction as with
  | nil => exact ⟨_, hspace', rfl⟩
  | cons a as ih =>
    refine ⟨[], utf8 space, _, _, gap_nil, hspace, h a List.mem_cons_self,
      ih fun a hmem => h a (List.mem_cons_of_mem _ hmem), ?_⟩
    simp only [List.flatMap_cons, List.append_assoc, List.cons_append, List.nil_append]

theorem utf8_intercalate_cons (a : α) (as : List α) :
    utf8 (("," ++ space).intercalate ((a :: as).map line))
      = utf8 (line a) ++ as.flatMap fun a => octet ',' :: (utf8 space ++ utf8 (line a)) := by
  induction as generalizing a with
  | nil => simp
  | cons b as ih =>
    have hcomma : utf8 "," = [octet ','] := rfl
    rw [List.map_cons, List.map_cons, String.intercalate_cons_cons, ← List.map_cons]
    simp only [Text.utf8_append, ih, hcomma, List.flatMap_cons, List.append_assoc, List.cons_append,
      List.nil_append]

theorem listText_lines {as : List α} (hne : as ≠ []) (h : ∀ a ∈ as, text a (utf8 (line a)))
    (space space' : String) (hspace : Gap (utf8 space)) (hspace' : Gap (utf8 space')) :
    ListText close text as (utf8 space ++ (utf8 (("," ++ space).intercalate (as.map line))
      ++ (utf8 space' ++ [close]))) := by
  cases as with
  | nil => exact absurd rfl hne
  | cons a as =>
    refine ⟨utf8 space, _, _, hspace, h a List.mem_cons_self,
      tailText_lines (fun a hmem => h a (List.mem_cons_of_mem _ hmem)) hspace hspace', ?_⟩
    rw [utf8_intercalate_cons, List.append_assoc]

theorem listText_compact {as : List α} (h : ∀ a ∈ as, text a (utf8 (line a))) :
    ListText close text as (utf8 (",".intercalate (as.map line)) ++ [close]) := by
  by_cases hne : as = []
  · subst hne
    exact ⟨[], gap_nil, rfl⟩
  · exact listText_lines hne h "" "" gap_nil gap_nil

theorem gap_lineBreak (level : Nat) : Gap (utf8 (lineBreak level)) := by
  have hchar : ∀ c ∈ '\n' :: List.replicate (2 * level) ' ', c = '\n' ∨ c = ' ' := by
    simp only [List.mem_cons, List.mem_replicate]
    tauto
  rw [lineBreak, Text.utf8_ofList fun c hc => by rcases hchar c hc with rfl | rfl <;> decide]
  intro b hb
  obtain ⟨c, hc, rfl⟩ := List.mem_map.1 hb
  rcases hchar c hc with rfl | rfl <;> decide

theorem listText_bracketed {as : List α} (h : ∀ a ∈ as, text a (utf8 (line a))) (level : Nat)
    (opening closing : String) (hclosing : utf8 closing = [close]) :
    ∃ list, ListText close text as list
      ∧ utf8 (bracketed level opening closing (as.map line)) = utf8 opening ++ list := by
  by_cases hne : as = []
  · subst hne
    refine ⟨[close], ⟨[], gap_nil, rfl⟩, ?_⟩
    rw [← hclosing]
    exact Text.utf8_append _ _
  · refine ⟨_, listText_lines hne h _ _ (gap_lineBreak (level + 1)) (gap_lineBreak level), ?_⟩
    rw [bracketed, if_neg (by simpa using hne)]
    simp only [Text.utf8_append, hclosing, List.append_assoc]

end Lines

/-! ## Writing documents -/

/-- The document nests at most `depth` levels deep, and its numbers are integers. -/
inductive Writable : (depth : Nat) → Json → Prop
  | null {depth : Nat} : Writable depth .null
  | bool {depth : Nat} (b : Bool) : Writable depth (.bool b)
  | number {depth : Nat} {n : JsonNumber} : n.IsInteger → Writable depth (.number n)
  | string {depth : Nat} (s : String) : Writable depth (.string s)
  | array {depth : Nat} {items : List Json} :
    (∀ item ∈ items, Writable depth item) → Writable (depth + 1) (.array items)
  | object {depth : Nat} {members : Members} :
    (∀ m ∈ members, Writable depth m.2) → Writable (depth + 1) (.object members)

/-- A text of a value that holds no others is one at every depth. -/
theorem isText_of_valueText {depth : Nat} {value : Json} {t : Bytes}
    (h : ∀ nested, ValueText nested value t) : IsText depth value t := by
  cases depth with
  | zero => exact h none
  | succ depth => exact h (some (IsText depth))

theorem compactItems_eq (items : List Json) : compactItems items = items.map compact := by
  induction items with
  | nil => rfl
  | cons item items ih => rw [compactItems, ih, List.map_cons]

theorem compactMembers_eq (members : Members) :
    compactMembers members = members.map fun m => quoted m.1 ++ ":" ++ compact m.2 := by
  induction members with
  | nil => rfl
  | cons m members ih => rw [compactMembers, ih, List.map_cons]

theorem prettyItems_eq (level : Nat) (items : List Json) :
    prettyItems level items = items.map (prettyAt level) := by
  induction items with
  | nil => rfl
  | cons item items ih => rw [prettyItems, ih, List.map_cons]

theorem prettyMembers_eq (level : Nat) (members : Members) :
    prettyMembers level members
      = members.map fun m => quoted m.1 ++ ": " ++ prettyAt level m.2 := by
  induction members with
  | nil => rfl
  | cons m members ih => rw [prettyMembers, ih, List.map_cons]

theorem memberText_line {text : Json → Bytes → Prop} {m : String × Json} {line : String}
    (h : text m.2 (utf8 line)) (colon : String) {gap : Bytes}
    (hcolon : utf8 colon = octet ':' :: gap) (hgap : Gap gap) :
    MemberText text m (utf8 (quoted m.1 ++ colon ++ line)) := by
  refine ⟨[], gap, _, gap_nil, hgap, h, ?_⟩
  rw [Text.utf8_append, Text.utf8_append, hcolon, List.append_assoc]
  rfl

theorem isText_compact {depth : Nat} {value : Json} (h : Writable depth value) :
    IsText depth value (utf8 value.compact) := by
  induction h with
  | null => exact isText_of_valueText fun _ => rfl
  | bool b => exact isText_of_valueText fun _ => rfl
  | number hn => exact isText_of_valueText fun _ => ⟨hn, rfl⟩
  | string s => exact isText_of_valueText fun _ => rfl
  | array hitems ih =>
    refine ⟨_, rfl, _, listText_compact ih, ?_⟩
    rw [compact, compactItems_eq, Text.utf8_append, Text.utf8_append]
    rfl
  | object hmembers ih =>
    have hline := fun m hm => memberText_line (ih m hm) ":" rfl gap_nil
    refine ⟨_, rfl, _, listText_compact hline, ?_⟩
    rw [compact, compactMembers_eq, Text.utf8_append, Text.utf8_append]
    rfl

theorem isText_prettyAt {depth : Nat} {value : Json} (h : Writable depth value) (level : Nat) :
    IsText depth value (utf8 (prettyAt level value)) := by
  induction h generalizing level with
  | null => exact isText_of_valueText fun _ => rfl
  | bool b => exact isText_of_valueText fun _ => rfl
  | number hn => exact isText_of_valueText fun _ => ⟨hn, rfl⟩
  | string s => exact isText_of_valueText fun _ => rfl
  | array hitems ih =>
    obtain ⟨list, hlist, htext⟩ :=
      listText_bracketed (fun item hitem => ih item hitem (level + 1)) level "[" "]" rfl
    refine ⟨_, rfl, list, hlist, ?_⟩
    rw [prettyAt, prettyItems_eq, htext]
    rfl
  | object hmembers ih =>
    have hspace : Gap [octet ' '] := List.forall_mem_singleton.2 rfl
    have hline := fun m hm => memberText_line (ih m hm (level + 1)) ": " rfl hspace
    obtain ⟨list, hlist, htext⟩ := listText_bracketed hline level "\x7b" "\x7d" rfl
    refine ⟨_, rfl, list, hlist, ?_⟩
    rw [prettyAt, prettyMembers_eq, htext]
    rfl

/-- What is written on one line is read back. -/
theorem parse_compact {value : Json} (hvalue : value.Distinct) (h : Writable 127 value) :
    parse (utf8 value.compact) = .ok value := by
  simpa using parse_isText hvalue (isText_compact h) gap_nil gap_nil

/-- What is written over several lines is read back. -/
theorem parse_pretty {value : Json} (hvalue : value.Distinct) (h : Writable 127 value) :
    parse (utf8 value.pretty) = .ok value := by
  rw [pretty]
  simpa using parse_isText hvalue (isText_prettyAt h 0) gap_nil gap_nil

end Json

end SealedEnvelope
