import SealedEnvelope.Proofs.Stream.Intake
import SealedEnvelope.Stream

set_option autoImplicit false

/-! # How the input is cut

`Intake.Blind` says of a computation that it does not see how its source is cut: on two sources with
the same octets (`Source.Alike`) it gives the same results and leaves sources with the same octets.
This passes from the steps of a computation to the whole (`Intake.Blind.bind`), so the readers of a
stream are gone through once, and the two loops follow by induction on their fuel. At the bottom are
the reads, and what these gather is the same however the octets are cut (`Intake.fill_eq_upTo`). -/

namespace SealedEnvelope.Stream

variable {α β : Type} {s t : Source}

/-! ## Sources that are cut differently -/

/-- The same octets are to come, in whatever pieces. -/
structure Source.Alike (s t : Source) : Prop where
  bytes : s.bytes = t.bytes
  ending : s.ending = t.ending
  taken : s.taken = t.taken

theorem Source.Alike.advance (h : s.Alike t) (n : Nat) : (s.advance n).Alike (t.advance n) where
  bytes := by rw [bytes_advance, bytes_advance, h.bytes]
  ending := h.ending
  taken := by rw [Source.advance, Source.advance, h.bytes, h.taken]

namespace Intake

/-- The same result with the same octets behind it, or the same error. -/
inductive Agree : Except Error (α × Source) → Except Error (α × Source) → Prop
  | ok (a : α) {s t : Source} (h : s.Alike t) : Agree (.ok (a, s)) (.ok (a, t))
  | error (e : Error) : Agree (.error e) (.error e)

/-- The computation does not see how its source is cut. -/
def Blind (x : Intake α) : Prop := ∀ ⦃s t : Source⦄, s.Alike t → Agree (x s) (x t)

theorem Agree.fst {x y : Except Error (α × Source)} (h : Agree x y) :
    Prod.fst <$> x = Prod.fst <$> y := by
  cases h <;> rfl

namespace Blind

variable {x : Intake α} {f : α → Intake β}

theorem pure (a : α) : Blind (Pure.pure a) := fun _ _ h => .ok a h

theorem fail {e : Error} (hx : ∀ s, x s = .error e) : Blind x := by
  intro s t _
  rw [hx, hx]
  exact .error e

theorem lift (x : Except Error α) : Blind (liftM x) := by
  intro s t h
  cases x with
  | error e => exact .error e
  | ok a => exact .ok a h

theorem bind (hx : Blind x) (hf : ∀ a, Blind (f a)) : Blind (x >>= f) := by
  intro s t h
  rw [state_bind_apply, state_bind_apply]
  have hagree := hx h
  generalize x s = left, x t = right at hagree
  cases hagree with
  | ok a h => exact hf a h
  | error e => exact .error e

theorem ite {c : Prop} [Decidable c] {x y : Intake α} (hx : Blind x) (hy : Blind y) :
    Blind (if c then x else y) := by
  split
  · exact hx
  · exact hy

theorem taken : Blind taken := by
  intro s t h
  rw [Intake.taken, Intake.taken, h.taken]
  exact .ok _ h

theorem fill (n : Nat) : Blind (fill n) := by
  intro s t h
  simp only [fill_eq_upTo, Intake.upTo, h.bytes, h.ending]
  split_ifs
  · cases t.ending with
    | finished => exact .ok _ (h.advance n)
    | failed reason => exact .error _
  · exact .ok _ (h.advance n)

/-- What follows a check, if the check passes. -/
theorem check {c : Prop} [Decidable c] {e : Error} (hx : Blind x) :
    Blind (if c then throw e else x) :=
  .ite (.fail fun _ => rfl) hx

theorem exactly (n : Nat) (what : String) : Blind (exactly n what) :=
  (fill n).bind fun got => .check (.pure got)

theorem length (what : String) : Blind (length what) := by
  refine (fill 1).bind fun got => ?_
  cases got with
  | nil => exact .fail fun _ => rfl
  | cons tag _ =>
    exact (lift _).bind fun width => (fill _).bind fun field =>
      .check ((lift _).bind fun read => .pure read.1)

end Blind

end Intake

/-! ## The readers of a stream -/

open Intake (Agree Blind)

theorem blind_checkCancelled (cancelled : Checkpoint → Bool) (chunk : Nat) :
    Blind (checkCancelled cancelled chunk) :=
  Blind.taken.bind fun _ => .check (.pure ())

theorem blind_readAhead (chunkSize : Nat) (current : Bytes) : Blind (readAhead chunkSize current) :=
  .ite (.fill chunkSize) (.pure [])

theorem blind_readHeader (config : Config) : Blind (readHeader config) :=
  (Blind.length _).bind fun length => .check <|
    (Blind.exactly length _).bind fun bytes => (Blind.lift _).bind fun header =>
      .pure (header, bytes)

theorem blind_readIndex (expected : Nat) : Blind (readIndex expected) :=
  (Blind.fill 4).bind fun _ => .check <| .check <| .check (.pure ())

theorem blind_readFlags (index : Nat) : Blind (readFlags index) := by
  refine (Blind.fill 1).bind fun got => ?_
  cases got with
  | nil => exact .fail fun _ => rfl
  | cons flags _ => exact .check (.pure flags)

theorem blind_readChunk (chunkSize expected : Nat) : Blind (readChunk chunkSize expected) := by
  refine (blind_readIndex expected).bind fun _ => (blind_readFlags expected).bind fun flags => ?_
  refine (Blind.length _).bind fun length => (Blind.lift _).bind fun _ => ?_
  refine (Blind.exactly length _).bind fun bytes => ?_
  split
  · exact .pure _
  · exact .fail fun _ => rfl

theorem blind_openNext (ctx : Context) (chunkSize : Nat) (cancelled : Checkpoint → Bool)
    (expected : Nat) : Blind (openNext ctx chunkSize cancelled expected) := by
  refine (blind_checkCancelled cancelled expected).bind fun _ => ?_
  refine (blind_readChunk chunkSize expected).bind fun chunk => ?_
  split
  · exact .pure _
  · exact .fail fun _ => rfl

theorem blind_checkEnd : Blind checkEnd :=
  (Blind.fill 1).bind fun _ => .check (.pure ())

/-! ## Encryption -/

theorem closeFrom_of_alike (ctx : Context) (chunkSize : Nat) (cancelled : Checkpoint → Bool)
    (fuel index : Nat) (current : Bytes) (h : s.Alike t) :
    closeFrom ctx chunkSize cancelled fuel index current s
      = closeFrom ctx chunkSize cancelled fuel index current t := by
  induction fuel generalizing index current s t with
  | zero => rfl
  | succ fuel ih =>
    have hstep := ((blind_checkCancelled cancelled index).bind fun _ =>
      blind_readAhead chunkSize current) h
    simp only [closeFrom]
    generalize (checkCancelled cancelled index >>= fun _ => readAhead chunkSize current) s = left,
      (checkCancelled cancelled index >>= fun _ => readAhead chunkSize current) t = right
      at hstep ⊢
    cases hstep with
    | ok following h => simp only [ih _ _ h]
    | error e => rfl

theorem closeAll_of_alike (ctx : Context) (chunkSize : Nat) (cancelled : Checkpoint → Bool)
    (h : s.Alike t) :
    closeAll ctx chunkSize cancelled s = closeAll ctx chunkSize cancelled t := by
  have hfirst := Blind.fill chunkSize h
  rw [closeAll, closeAll]
  generalize Intake.fill chunkSize s = left, Intake.fill chunkSize t = right at hfirst ⊢
  cases hfirst with
  | ok first h => simp only [h.bytes, closeFrom_of_alike _ _ _ _ _ _ h]
  | error e => rfl

theorem encrypt_of_alike (config : Config) (mode : Mode) (recipients : List Recipient) (sink : Sink)
    (options : Options) (tape : Tape) (h : s.Alike t) :
    encrypt config mode recipients s sink options tape
      = encrypt config mode recipients t sink options tape := by
  simp only [encrypt, encryptUnder, closeAll_of_alike _ _ _ h]

/-! ## Decryption -/

theorem openFrom_of_alike (ctx : Context) (chunkSize : Nat) (cancelled : Checkpoint → Bool)
    (fuel expected : Nat) (h : s.Alike t) :
    openFrom ctx chunkSize cancelled fuel expected s
      = openFrom ctx chunkSize cancelled fuel expected t := by
  induction fuel generalizing expected s t with
  | zero => rfl
  | succ fuel ih =>
    have hnext := blind_openNext ctx chunkSize cancelled expected h
    rw [openFrom, openFrom]
    generalize openNext ctx chunkSize cancelled expected s = left,
      openNext ctx chunkSize cancelled expected t = right at hnext ⊢
    cases hnext with
    | ok opened h => simp only [ih _ h, (blind_checkEnd h).fst]
    | error e => rfl

theorem decryptFor_of_alike (config : Config) (key : PrivateKey) (id : Option Bytes) (sink : Sink)
    (options : Options) (h : s.Alike t) :
    decryptFor config key id s sink options = decryptFor config key id t sink options := by
  have hheader := blind_readHeader config h
  rw [decryptFor, decryptFor, openHeader, openHeader]
  generalize readHeader config s = left, readHeader config t = right at hheader ⊢
  cases hheader with
  | error e => rfl
  | ok read h =>
    cases hkey : recoverKey config key id read.1 with
    | error e => simp only [bind, Except.bind, hkey]
    | ok streamKey =>
      simp only [bind, Except.bind, hkey, pure, Except.pure, Opened.run, h.bytes,
        openFrom_of_alike _ _ _ _ _ h]

theorem decrypt_of_alike (config : Config) (privateKey : Bytes) (id : Option Bytes) (sink : Sink)
    (options : Options) (h : s.Alike t) :
    decrypt config privateKey id s sink options = decrypt config privateKey id t sink options := by
  simp only [decrypt, decryptFor_of_alike _ _ _ _ _ h]

/-! ## Whole streams -/

/-- **How the input is cut is invisible.** Let two sources hand out the same octets, cut wherever,
    and end alike. At every place of either the loop that reads piece by piece gathers the next
    octets, whatever the pieces. With the same randomness, options and sink, encryption reports the
    same of both, that is the octets written, the progress, and the summary or the error; and with
    the same key so does decryption. -/
theorem fragmentation_invisible (hbytes : s.bytes = t.bytes) (hending : s.ending = t.ending)
    (htaken : s.taken = t.taken) :
    (∀ place n,
      Intake.fill n (s.advance place) = Intake.upTo n (s.advance place)
        ∧ Intake.fill n (t.advance place) = Intake.upTo n (t.advance place))
      ∧ (∀ config mode recipients sink options tape,
        encrypt config mode recipients s sink options tape
          = encrypt config mode recipients t sink options tape)
      ∧ ∀ config privateKey id sink options,
        decrypt config privateKey id s sink options
          = decrypt config privateKey id t sink options := by
  have halike : s.Alike t := ⟨hbytes, hending, htaken⟩
  refine ⟨fun place n => ⟨?_, ?_⟩, fun config mode recipients sink options tape => ?_,
    fun config privateKey id sink options => ?_⟩
  · exact Intake.fill_eq_upTo n (s.advance place)
  · exact Intake.fill_eq_upTo n (t.advance place)
  · exact encrypt_of_alike config mode recipients sink options tape halike
  · exact decrypt_of_alike config privateKey id sink options halike

/-- A source that fails behind three octets, which it hands out one by one or in two pieces. -/
theorem fragmentation_invisible_three_octets :
    let s : Source := ⟨[[1], [2], [3]], .failed "reset", 0, by decide⟩
    let t : Source := ⟨[[1, 2], [3]], .failed "reset", 0, by decide⟩
    let key : PrivateKey := ⟨2, by decide, by decide⟩
    let recipients : List Recipient := [⟨[], key.publicKey.compressed.bytes⟩]
    let options : Options := { Options.none with chunkSize := some 2 }
    let tape : Tape := List.replicate 31 0 ++ 1 :: List.replicate 16 0
    s.bytes = t.bytes ∧ s.ending = t.ending ∧ s.taken = t.taken
      ∧ Intake.fill 2 (s.advance 1) = Intake.upTo 2 (s.advance 1)
      ∧ encrypt .standard .single recipients s .unlimited options tape
        = encrypt .standard .single recipients t .unlimited options tape
      ∧ decrypt .standard key.octets.bytes none s .unlimited options
        = decrypt .standard key.octets.bytes none t .unlimited options := by
  intro s t key recipients options tape
  have hbytes : s.bytes = t.bytes := by decide
  obtain ⟨hfill, hencrypt, hdecrypt⟩ := fragmentation_invisible hbytes rfl rfl
  exact ⟨hbytes, rfl, rfl, (hfill 1 2).1,
    hencrypt .standard .single recipients .unlimited options tape,
    hdecrypt .standard key.octets.bytes none .unlimited options⟩

end SealedEnvelope.Stream
