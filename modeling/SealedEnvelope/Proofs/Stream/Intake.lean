import SealedEnvelope.Proofs.LengthPrefix
import SealedEnvelope.Stream.Source

set_option autoImplicit false

/-! # Taking octets from a source

What is taken depends on the octets that the source still holds and not on how they are cut:
`Intake.upTo` tells without any reads what the loop of reads comes to (`Intake.fill_eq_upTo`,
`Intake.fill_eq_ok_iff`). `Intake.Reads x Form` describes a computation by the octets it reads: it
succeeds on the forms of its results and on nothing else, takes just those, and reports a source
that ends within a form as truncated. This passes from the steps of a computation to the whole
(`Intake.Reads.bind`), so that a reader is described by going through its steps once. -/

namespace SealedEnvelope.Stream

namespace Source

variable {s s' s'' : Source} {front next rest : Bytes}

/-- Pieces with nothing in them are left out, and nothing is lost with them. -/
@[simp] theorem bytes_ofPieces (pieces : List Bytes) (ending : Ending) :
    (ofPieces pieces ending).bytes = pieces.flatten :=
  List.flatten_filter_ne_nil

@[simp] theorem bytes_ofBytes (bytes : Bytes) : (ofBytes bytes).bytes = bytes := by
  simp [ofBytes]

@[simp] theorem taken_ofBytes (bytes : Bytes) : (ofBytes bytes).taken = 0 := rfl

/-- What is left of some pieces behind their first `n` octets. -/
def dropPieces : List Bytes → (n : Nat) → List Bytes
  | [], _ => []
  | piece :: rest, n =>
    if n < piece.length then piece.drop n :: rest else dropPieces rest (n - piece.length)

@[simp] theorem flatten_dropPieces (pieces : List Bytes) (n : Nat) :
    (dropPieces pieces n).flatten = pieces.flatten.drop n := by
  induction pieces generalizing n with
  | nil => simp [dropPieces]
  | cons piece rest ih =>
    rw [dropPieces]
    split
    · next h => simp [List.drop_append_of_le_length (Nat.le_of_lt h)]
    · next h => simp [ih, List.drop_append, List.drop_of_length_le (Nat.not_lt.1 h)]

theorem nil_notMem_dropPieces {pieces : List Bytes} (h : [] ∉ pieces) (n : Nat) :
    [] ∉ dropPieces pieces n := by
  induction pieces generalizing n with
  | nil => exact h
  | cons piece rest ih =>
    have hrest : [] ∉ rest := fun hmem => h (List.mem_cons_of_mem _ hmem)
    rw [dropPieces]
    split
    · next hlong =>
      have hdrop : piece.drop n ≠ [] := by rwa [ne_eq, List.drop_eq_nil_iff, Nat.not_le]
      exact List.not_mem_cons_of_ne_of_not_mem hdrop.symm hrest
    · exact ih hrest _

/-- The source behind its next `n` octets. -/
def advance (s : Source) (n : Nat) : Source where
  pieces := dropPieces s.pieces n
  ending := s.ending
  taken := s.taken + (s.bytes.take n).length
  nonempty := nil_notMem_dropPieces s.nonempty n

@[simp] theorem bytes_advance (s : Source) (n : Nat) : (s.advance n).bytes = s.bytes.drop n := by
  simp [advance, bytes]

@[simp] theorem ending_advance (s : Source) (n : Nat) : (s.advance n).ending = s.ending := rfl

/-- What is left of a source once `front` is taken from it. -/
structure Leaves (s : Source) (front : Bytes) (s' : Source) : Prop where
  bytes : s.bytes = front ++ s'.bytes
  ending : s'.ending = s.ending
  taken : s'.taken = s.taken + front.length

theorem Leaves.refl (s : Source) : s.Leaves [] s := ⟨rfl, rfl, rfl⟩

theorem Leaves.trans (h : s.Leaves front s') (h' : s'.Leaves next s'') :
    s.Leaves (front ++ next) s'' := by
  refine ⟨?_, h'.ending.trans h.ending, ?_⟩
  · rw [h.bytes, h'.bytes, List.append_assoc]
  · rw [h'.taken, h.taken, List.length_append, Nat.add_assoc]

theorem Leaves.bytes_eq (h : s.Leaves front s') (hbytes : s.bytes = front ++ rest) :
    s'.bytes = rest :=
  List.append_cancel_left (h.bytes.symm.trans hbytes)

theorem leaves_advance (s : Source) (n : Nat) : s.Leaves (s.bytes.take n) (s.advance n) :=
  ⟨by simp, rfl, rfl⟩

end Source

namespace Intake

variable {α β : Type} {s s' : Source}

/-! ## The next octets -/

/-- The next `n` octets, or as many as there are before the source ends, without regard to how they
    are cut. -/
def upTo (n : Nat) : Intake Bytes := fun s =>
  if s.bytes.length < n then
    match s.ending with
    | .finished => .ok (s.bytes.take n, s.advance n)
    | .failed reason => .error (.io reason)
  else .ok (s.bytes.take n, s.advance n)

section Cons

variable {piece : Bytes} {rest : List Bytes} {ending : Ending} {taken n : Nat}
  {hpieces : [] ∉ piece :: rest} {hrest : [] ∉ rest}

/-- A piece that is longer than what is wanted is the only one that is looked at. -/
theorem upTo_of_lt (hlong : n < piece.length) :
    upTo n ⟨piece :: rest, ending, taken, hpieces⟩
      = .ok (piece.take n, Source.advance ⟨piece :: rest, ending, taken, hpieces⟩ n) := by
  have htake : Source.bytes ⟨piece :: rest, ending, taken, hpieces⟩ = piece ++ rest.flatten := rfl
  have henough : ¬(piece ++ rest.flatten).length < n := by
    rw [List.length_append]
    omega
  simp only [upTo, htake, if_neg henough, List.take_append_of_le_length (Nat.le_of_lt hlong)]

/-- Any other is taken whole, and the rest is looked for behind it. -/
theorem upTo_of_le (hshort : piece.length ≤ n) :
    upTo n ⟨piece :: rest, ending, taken, hpieces⟩
      = match upTo (n - piece.length) ⟨rest, ending, taken + piece.length, hrest⟩ with
        | .error e => .error e
        | .ok (more, s) => .ok (piece ++ more, s) := by
  let whole : Source := ⟨piece :: rest, ending, taken, hpieces⟩
  let behind : Source := ⟨rest, ending, taken + piece.length, hrest⟩
  have hbytes : whole.bytes = piece ++ behind.bytes := rfl
  have htake : whole.bytes.take n = piece ++ behind.bytes.take (n - piece.length) := by
    rw [hbytes, List.take_append, List.take_of_length_le hshort]
  have hlack : whole.bytes.length < n ↔ behind.bytes.length < n - piece.length := by
    rw [hbytes, List.length_append]
    omega
  have hadvance : whole.advance n = behind.advance (n - piece.length) := by
    simp only [Source.advance, htake, List.length_append, whole, behind, Source.dropPieces,
      if_neg (Nat.not_lt.2 hshort), Nat.add_assoc]
  show upTo n whole = match upTo (n - piece.length) behind with
    | .error e => .error e
    | .ok (more, s) => .ok (piece ++ more, s)
  have hending : whole.ending = behind.ending := rfl
  by_cases hend : behind.bytes.length < n - piece.length
  · simp only [upTo, if_pos hend, if_pos (hlack.2 hend), htake, hadvance, hending]
    cases behind.ending <;> rfl
  · simp only [upTo, if_neg hend, if_neg (hlack.not.2 hend), htake, hadvance]

end Cons

/-- Read by read the same octets are gathered. -/
theorem fill_eq_upTo (n : Nat) (s : Source) : fill n s = upTo n s := by
  obtain ⟨pieces, ending, taken, nonempty⟩ := s
  -- Induction on the pieces: a read takes all of a piece or is the last one.
  induction pieces generalizing n taken with
  | nil =>
    rw [fill]
    split_ifs with hn
    · subst hn
      rfl
    · cases ending <;>
        simp [Source.read, upTo, Source.bytes, Source.advance, Source.dropPieces,
          Nat.pos_of_ne_zero hn]
  | cons piece rest ih =>
    have hpiece : 0 < piece.length :=
      List.length_pos_iff.2 fun hnil => nonempty (hnil ▸ List.mem_cons_self ..)
    have hrest : [] ∉ rest := fun hmem => nonempty (List.mem_cons_of_mem _ hmem)
    rw [fill]
    split_ifs with hn
    · subst hn
      rw [upTo_of_lt hpiece]
      simp [Source.advance, Source.dropPieces, hpiece]
    · have hgot : piece.take n ≠ [] := by simp [hn, List.length_pos_iff.1 hpiece]
      simp only [Source.read, List.head?_cons, dif_neg hgot, Source.dropRead]
      by_cases hlong : n < piece.length
      · have hlength : (piece.take n).length = n := by simp [Nat.le_of_lt hlong]
        have henough : n ≤ (piece ++ rest.flatten).length := by
          rw [List.length_append]
          omega
        rw [upTo_of_lt hlong, hlength, Nat.sub_self, fill, dif_pos rfl]
        simp only [Source.advance, Source.dropPieces, Source.bytes, List.flatten_cons,
          List.length_take, Nat.min_eq_left henough, if_pos hlong, List.append_nil]
      · have hshort : piece.length ≤ n := Nat.not_lt.1 hlong
        simp only [List.take_of_length_le hshort, if_neg hlong, ih _ _ hrest]
        exact (upTo_of_le hshort).symm

theorem fill_eq_ok_iff {n : Nat} {got : Bytes} :
    fill n s = .ok (got, s')
      ↔ (n ≤ s.bytes.length ∨ s.ending = .finished) ∧ got = s.bytes.take n ∧ s' = s.advance n := by
  rw [fill_eq_upTo, upTo]
  split_ifs with hshort
  · cases hending : s.ending with
    | finished => simp [eq_comm]
    | failed reason =>
      simp only [reduceCtorEq, or_false, false_iff]
      omega
  · simp [Nat.not_lt.1 hshort, eq_comm]

/-- A source that has enough octets, or ends with the last, gives the next ones. -/
theorem fill_eq {n : Nat} (h : n ≤ s.bytes.length ∨ s.ending = .finished) :
    fill n s = .ok (s.bytes.take n, s.advance n) :=
  fill_eq_ok_iff.2 ⟨h, rfl, rfl⟩

/-! ## What a computation reads -/

/-- Octets that lack something of two parts lack it of the first, or hold that and lack it of the
    second. -/
theorem cut_append {bytes lost front next : Bytes} (h : bytes ++ lost = front ++ next) :
    (∃ lost', lost' ≠ [] ∧ bytes ++ lost' = front)
      ∨ ∃ rest, bytes = front ++ rest ∧ rest ++ lost = next := by
  rcases List.append_eq_append_iff.1 h with ⟨lost', hfront, hlost⟩ | ⟨rest, hbytes, hnext⟩
  · by_cases hempty : lost' = []
    · subst hempty
      exact Or.inr ⟨[], by simpa using hfront.symm, hlost⟩
    · exact Or.inl ⟨lost', hempty, hfront.symm⟩
  · exact Or.inr ⟨rest, hbytes, hnext.symm⟩

/-- The source ends before the computation has what it needs. -/
def Truncated (x : Except Error α) : Prop := ∃ reason, x = .error (.streamTruncated reason)

/-- The computation reads the forms of its results and nothing else. -/
structure Reads (x : Intake α) (Form : Bytes → α → Prop) : Prop where
  /-- Of a source it has read it took a form of the result. -/
  sound : ∀ {s s' : Source} {a : α}, x s = .ok (a, s') → ∃ front, Form front a ∧ s.Leaves front s'
  /-- A source that starts with a form is read, whatever follows. -/
  complete : ∀ {s : Source} {front rest : Bytes} {a : α}, Form front a →
    s.bytes = front ++ rest → ∃ s', x s = .ok (a, s') ∧ s.Leaves front s'
  /-- A source that ends within a form is truncated. -/
  cut : ∀ {s : Source} {front lost : Bytes} {a : α}, Form front a →
    s.bytes ++ lost = front → lost ≠ [] → s.ending = .finished → Truncated (x s)

namespace Reads

variable {x : Intake α} {f : α → Intake β} {Form Form' : Bytes → α → Prop}
  {Next : α → Bytes → β → Prop}

theorem congr (h : Reads x Form) (hform : ∀ front a, Form front a ↔ Form' front a) :
    Reads x Form' := by
  obtain rfl : Form = Form' := by
    funext front a
    exact propext (hform front a)
  exact h

theorem pure (a : α) : Reads (Pure.pure a) fun front b => front = [] ∧ a = b where
  sound := by
    intro s s' b h
    obtain ⟨hab, rfl⟩ := state_pure_eq_ok.1 h
    exact ⟨[], ⟨rfl, hab⟩, .refl s⟩
  complete := by
    rintro s _ rest b ⟨rfl, hab⟩ -
    exact ⟨s, state_pure_eq_ok.2 ⟨hab, rfl⟩, .refl s⟩
  cut := by
    rintro s _ lost b ⟨rfl, -⟩ hlost hne
    exact absurd (List.append_eq_nil_iff.1 hlost).2 hne

theorem fail {e : Error} (h : ∀ s, x s = .error e) : Reads x fun _ _ => False where
  sound := by
    intro s s' a hx
    rw [h] at hx
    cases hx
  complete := False.elim
  cut := False.elim

/-- One computation after the other reads one form after the other. -/
theorem bind (hx : Reads x Form) (hf : ∀ a, Reads (f a) (Next a)) :
    Reads (x >>= f) fun whole b =>
      ∃ front a next, Form front a ∧ Next a next b ∧ whole = front ++ next where
  sound := by
    intro s s'' b h
    obtain ⟨a, s', hxs, hfs⟩ := state_bind_eq_ok.1 h
    obtain ⟨front, hfront, hleaves⟩ := hx.sound hxs
    obtain ⟨next, hnext, hleaves'⟩ := (hf a).sound hfs
    exact ⟨front ++ next, ⟨front, a, next, hfront, hnext, rfl⟩, hleaves.trans hleaves'⟩
  complete := by
    rintro s _ rest b ⟨front, a, next, hfront, hnext, rfl⟩ hbytes
    rw [List.append_assoc] at hbytes
    obtain ⟨s', hxs, hleaves⟩ := hx.complete hfront hbytes
    obtain ⟨s'', hfs, hleaves'⟩ := (hf a).complete hnext (hleaves.bytes_eq hbytes)
    exact ⟨s'', state_bind_eq_ok.2 ⟨a, s', hxs, hfs⟩, hleaves.trans hleaves'⟩
  cut := by
    rintro s _ lost b ⟨front, a, next, hfront, hnext, rfl⟩ hbytes hlost hending
    rcases cut_append hbytes with ⟨lost', hne, hfirst⟩ | ⟨rest, hrest, hsecond⟩
    · obtain ⟨reason, hxs⟩ := hx.cut hfront hfirst hne hending
      exact ⟨reason, state_bind_eq_error.2 (Or.inl hxs)⟩
    · obtain ⟨s', hxs, hleaves⟩ := hx.complete hfront hrest
      rw [← hleaves.bytes_eq hrest] at hsecond
      obtain ⟨reason, hfs⟩ := (hf a).cut hnext hsecond hlost (hleaves.ending.trans hending)
      exact ⟨reason, state_bind_eq_error.2 (Or.inr ⟨a, s', hxs, hfs⟩)⟩

/-- What depends on a result reads its own forms, if there is a result. -/
theorem lift_bind {result : Except Error α}
    (hf : ∀ a, result = .ok a → Reads (f a) (Next a)) :
    Reads (liftM result >>= f) fun whole b => ∃ a, result = .ok a ∧ Next a whole b := by
  cases result with
  | error e => exact (fail fun _ => rfl).congr fun whole b => by simp
  | ok a =>
    have h : Reads (liftM (.ok a : Except Error α) >>= f) (Next a) := hf a rfl
    exact h.congr fun whole b => by simp

/-- A number of octets, where too few are reported as truncation, and what depends on them. -/
theorem fill_bind {n : Nat} {f : Bytes → Intake β} {Next : Bytes → Bytes → β → Prop}
    (hshort : ∀ got s, got.length < n → Truncated (f got s))
    (hfull : ∀ got, got.length = n → Reads (f got) (Next got)) :
    Reads (fill n >>= f) fun whole b =>
      ∃ got next, got.length = n ∧ Next got next b ∧ whole = got ++ next where
  sound := by
    intro s s'' b h
    obtain ⟨got, s', hgot, hf⟩ := state_bind_eq_ok.1 h
    obtain ⟨-, rfl, rfl⟩ := fill_eq_ok_iff.1 hgot
    have hlength : (s.bytes.take n).length = n := by
      by_contra hne
      obtain ⟨reason, htruncated⟩ := hshort (s.bytes.take n) (s.advance n)
        (lt_of_le_of_ne (List.length_take_le _ _) hne)
      rw [htruncated] at hf
      cases hf
    obtain ⟨next, hnext, hleaves⟩ := (hfull _ hlength).sound hf
    exact ⟨_, ⟨_, next, hlength, hnext, rfl⟩, (s.leaves_advance n).trans hleaves⟩
  complete := by
    rintro s _ rest b ⟨got, next, hlength, hnext, rfl⟩ hbytes
    rw [List.append_assoc] at hbytes
    have htake : s.bytes.take n = got := by rw [hbytes, List.take_left' hlength]
    have hlong : n ≤ s.bytes.length := by
      rw [hbytes, List.length_append]
      omega
    have hleaves := s.leaves_advance n
    rw [htake] at hleaves
    obtain ⟨s', hf, hleaves'⟩ := (hfull got hlength).complete hnext (hleaves.bytes_eq hbytes)
    refine ⟨s', state_bind_eq_ok.2 ⟨got, _, ?_, hf⟩, hleaves.trans hleaves'⟩
    rw [fill_eq (Or.inl hlong), htake]
  cut := by
    rintro s _ lost b ⟨got, next, hlength, hnext, rfl⟩ hbytes hlost hending
    have htake := fill_eq (n := n) (Or.inr hending)
    rcases cut_append hbytes with ⟨lost', hne, hfirst⟩ | ⟨rest, hrest, hsecond⟩
    · have hshorter : (s.bytes.take n).length < n := by
        have hgot := congrArg List.length hfirst
        rw [List.length_append, hlength] at hgot
        have hlost' := List.length_pos_iff.2 hne
        rw [List.length_take]
        omega
      obtain ⟨reason, hf⟩ := hshort _ (s.advance n) hshorter
      exact ⟨reason, state_bind_eq_error.2 (Or.inr ⟨_, _, htake, hf⟩)⟩
    · have hgot : s.bytes.take n = got := by rw [hrest, List.take_left' hlength]
      have hleft : (s.advance n).bytes = rest := by
        rw [Source.bytes_advance, hrest, List.drop_left' hlength]
      rw [← hleft] at hsecond
      obtain ⟨reason, hf⟩ := (hfull got hlength).cut hnext hsecond hlost hending
      exact ⟨reason, state_bind_eq_error.2 (Or.inr ⟨_, _, htake, hgot ▸ hf⟩)⟩

/-- One octet, where none is reported as truncation, and what depends on it. -/
theorem octet_bind (reason : String) {f : UInt8 → Intake β} {Next : UInt8 → Bytes → β → Prop}
    (hf : ∀ b, Reads (f b) (Next b)) :
    Reads (do
        match ← fill 1 with
        | [] => throw (.streamTruncated reason)
        | b :: _ => f b)
      fun whole a => ∃ b next, Next b next a ∧ whole = b :: next := by
  have h : Reads (do
        match ← fill 1 with
        | [] => throw (.streamTruncated reason)
        | b :: _ => f b)
      fun whole a => ∃ got next, got.length = 1 ∧ (∃ b, got = [b] ∧ Next b next a)
        ∧ whole = got ++ next := by
    refine .fill_bind ?_ ?_
    · intro got s hshort
      obtain rfl := List.length_eq_zero_iff.1 (Nat.lt_one_iff.1 hshort)
      exact ⟨_, rfl⟩
    · intro got hlength
      obtain ⟨b, rfl⟩ := List.length_eq_one_iff.1 hlength
      exact (hf b).congr fun next a => by simp
  refine h.congr fun whole a => ?_
  constructor
  · rintro ⟨_, next, -, ⟨b, rfl, hnext⟩, rfl⟩
    exact ⟨b, next, hnext, rfl⟩
  · rintro ⟨b, next, hnext, rfl⟩
    exact ⟨[b], next, rfl, ⟨b, rfl, hnext⟩, rfl⟩

/-- Two forms at the front of the same octets are one, and of one result. -/
theorem unique (h : Reads x Form) {front front' rest rest' : Bytes} {a a' : α}
    (hform : Form front a) (hform' : Form front' a') (heq : front ++ rest = front' ++ rest') :
    front = front' ∧ a = a' := by
  have hbytes : (Source.ofBytes (front ++ rest)).bytes = front ++ rest := Source.bytes_ofBytes _
  obtain ⟨s, hread, hleaves⟩ := h.complete hform hbytes
  obtain ⟨s', hread', hleaves'⟩ := h.complete hform' (hbytes.trans heq)
  rw [hread] at hread'
  obtain ⟨rfl, rfl⟩ := Prod.mk.inj (Except.ok.inj hread')
  exact ⟨List.append_cancel_right (hleaves.bytes.symm.trans hleaves'.bytes), rfl⟩

/-- What follows a check reads its own forms, if the check passes. -/
theorem check {c : Prop} [Decidable c] {e : Error} {y : Intake α} (hy : Reads y Form) :
    Reads (if c then throw e else y) fun front a => ¬c ∧ Form front a := by
  split
  · next hc =>
    exact (fail fun _ => rfl).congr fun front a => by simp [hc]
  · next hc =>
    exact hy.congr fun front a => by simp [hc]

end Reads

/-- On every source that starts with `front`, the computation gives `a` and takes just `front`. -/
def Takes (x : Intake α) (front : Bytes) (a : α) : Prop :=
  ∀ (s : Source) (rest : Bytes), s.bytes = front ++ rest →
    ∃ s', x s = .ok (a, s') ∧ s'.bytes = rest ∧ s'.ending = s.ending

/-! ## Announced octets -/

theorem reads_exactly (n : Nat) (what : String) :
    Reads (exactly n what) fun front a => front.length = n ∧ a = front := by
  have h : Reads (exactly n what) fun front a =>
      ∃ got next, got.length = n ∧ (next = [] ∧ got = a) ∧ front = got ++ next := by
    refine .fill_bind ?_ ?_
    · intro got s hshort
      rw [if_pos hshort]
      exact ⟨_, rfl⟩
    · intro got hlength
      rw [if_neg (by omega)]
      exact .pure got
  refine h.congr fun front a => ?_
  constructor
  · rintro ⟨got, _, hlength, ⟨rfl, rfl⟩, rfl⟩
    rw [List.append_nil]
    exact ⟨hlength, rfl⟩
  · rintro ⟨hlength, rfl⟩
    exact ⟨a, [], hlength, ⟨rfl, rfl⟩, (List.append_nil a).symm⟩

theorem reads_decode (input : Bytes) :
    Reads (do return (← LengthPrefix.decode input).1 : Intake Nat) fun front n =>
      front = [] ∧ ∃ taken, LengthPrefix.decode input = .ok (n, taken) := by
  refine (Reads.lift_bind fun p _ => .pure p.1).congr fun front n => ?_
  constructor
  · rintro ⟨p, hp, rfl, rfl⟩
    exact ⟨rfl, p.2, hp⟩
  · rintro ⟨rfl, taken, hp⟩
    exact ⟨(n, taken), hp, rfl, rfl⟩

/-- The number behind the tag of a length. -/
theorem reads_lengthField (what : String) (width : LengthPrefix.Width) :
    Reads (do
        let field ← fill width.size
        if field.length < width.size then
          throw (.streamTruncated (what ++ " length cut short"))
        return (← LengthPrefix.decode (width.tag :: field)).1 : Intake Nat)
      fun front n => width.Holds n ∧ front = bigEndian width.size n := by
  have h : Reads (do
        let field ← fill width.size
        if field.length < width.size then
          throw (.streamTruncated (what ++ " length cut short"))
        return (← LengthPrefix.decode (width.tag :: field)).1 : Intake Nat)
      fun front n => ∃ field next, field.length = width.size
        ∧ (next = [] ∧ ∃ taken, LengthPrefix.decode (width.tag :: field) = .ok (n, taken))
        ∧ front = field ++ next := by
    refine .fill_bind ?_ ?_
    · intro field s hshort
      rw [if_pos hshort]
      exact ⟨_, rfl⟩
    · intro field hlength
      rw [if_neg (by omega)]
      exact reads_decode (width.tag :: field)
  refine h.congr fun front n => ?_
  constructor
  · rintro ⟨field, _, hlength, ⟨rfl, taken, hp⟩, rfl⟩
    obtain ⟨width', hholds, -, hinitial⟩ := LengthPrefix.decode_eq_ok_iff.1 hp
    obtain ⟨htag, hnumber⟩ := List.cons_prefix_cons.1 hinitial
    obtain rfl := LengthPrefix.Width.tag_inj htag
    rw [hnumber.eq_of_length (by rw [length_bigEndian, hlength]), List.append_nil]
    exact ⟨hholds, rfl⟩
  · rintro ⟨hholds, rfl⟩
    have hp := LengthPrefix.decode_eq_ok_iff.2 ⟨width, hholds, rfl, List.prefix_refl _⟩
    exact ⟨_, [], length_bigEndian .., ⟨rfl, _, hp⟩, (List.append_nil _).symm⟩

/-- A length is read in whatever width its tag announces. -/
theorem reads_length (what : String) :
    Reads (Intake.length what) fun front n =>
      ∃ width : LengthPrefix.Width, width.Holds n ∧ front = LengthPrefix.octetsIn width n := by
  have h : Reads (Intake.length what) fun front n => ∃ tag next,
      (∃ width, LengthPrefix.Width.ofTag tag = .ok width ∧ width.Holds n
        ∧ next = bigEndian width.size n) ∧ front = tag :: next := by
    refine .octet_bind _ fun tag => .lift_bind fun width hwidth => ?_
    obtain rfl := LengthPrefix.Width.ofTag_eq_ok_iff.1 hwidth
    exact reads_lengthField what width
  refine h.congr fun front n => ?_
  constructor
  · rintro ⟨_, _, ⟨width, hwidth, hholds, rfl⟩, rfl⟩
    obtain rfl := LengthPrefix.Width.ofTag_eq_ok_iff.1 hwidth
    exact ⟨width, hholds, rfl⟩
  · rintro ⟨width, hholds, rfl⟩
    exact ⟨_, _, ⟨width, LengthPrefix.Width.ofTag_eq_ok_iff.2 rfl, hholds, rfl⟩, rfl⟩

end Intake

end SealedEnvelope.Stream
