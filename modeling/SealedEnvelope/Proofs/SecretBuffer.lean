import SealedEnvelope.Proofs.Octets
import SealedEnvelope.Proofs.Sealing
import SealedEnvelope.Proofs.Text.Utf8
import SealedEnvelope.SecretBuffer
import Mathlib.Data.List.Forall2

set_option autoImplicit false

/-! # Secrets that are kept

Buffers and texts stand on a shelf and are asked for one after the other. Beside the shelf there is
a list of what was put there and what of it is disposed of (`Contents`), which knows nothing of
masks. A secret is kept as this list says (`Item.Holds`), one request keeps it so
(`Shelf.Keeps.step`), and so whatever is requested is answered from the list (`secrets_kept`):
nothing else can be told from masked secrets, whatever the masks. -/

namespace SealedEnvelope

/-! ## The shelf -/

/-- A secret that is kept. -/
inductive Item where
  | buffer (b : SecretBuffer)
  | text (t : SecretText)
deriving DecidableEq, Repr

namespace Item

/-- The octets in a buffer. -/
def octets? : Item → Option (Except Error Bytes)
  | buffer b => some b.expose
  | text _ => none

/-- The text in a secret text. -/
def text? : Item → Option (Except Error String)
  | buffer _ => none
  | text t => some t.expose

/-- The number of octets kept. -/
def size : Item → Nat
  | buffer b => b.size
  | text t => t.size

/-- Whether the secret is disposed of. -/
def disposed : Item → Bool
  | buffer b => b.disposed
  | text t => t.buffer.disposed

/-- The secret wiped. -/
def dispose : Item → Item
  | buffer b => buffer b.dispose
  | text t => text t.dispose

end Item

/-- The secrets that are kept, in the order in which they came. -/
abbrev Shelf := List Item

variable {R : Type}

/-- What is asked of a shelf. Secrets are named by their places; what is done with a secret while it
    is in the clear has a result in `R`. -/
inductive Request (R : Type) where
  | keep (secret : Bytes)
  | keepText (text : String)
  | clone (i : Nat)
  | expose (i : Nat)
  | use (i : Nat) (f : Bytes → R)
  | useText (i : Nat) (f : String → R)
  | state (i : Nat)
  | dispose (i : Nat)

/-- What a shelf answers. -/
inductive Answer (R : Type) where
  | done
  | octets (secret : Bytes)
  | result (r : R)
  | state (size : Nat) (disposed : Bool)
  | failed (e : Error)
  /-- There is no secret of the kind at the place. -/
  | absent
deriving DecidableEq, Repr

/-- The answer to a request for what may not be there or not be given away. -/
def Answer.of {α : Type} (found : α → Answer R) : Option (Except Error α) → Answer R
  | some (.ok a) => found a
  | some (.error e) => .failed e
  | none => .absent

namespace Shelf

/-- The answer to a request, and the shelf behind it. -/
def step (shelf : Shelf) : Request R → Draw (Answer R × Shelf)
  | .keep secret => do
    let b ← SecretBuffer.ofBytes secret
    return (.done, shelf ++ [.buffer b])
  | .keepText text => do
    let t ← SecretText.ofString text
    return (.done, shelf ++ [.text t])
  | .clone i =>
    match shelf[i]? with
    | some (.buffer b) => do
      match ← b.clone.run with
      | .ok copy => return (.done, shelf ++ [.buffer copy])
      | .error e => return (.failed e, shelf)
    | _ => return (.absent, shelf)
  | .expose i => return (.of .octets (shelf[i]? >>= Item.octets?), shelf)
  | .use i f => return (.of (fun secret => .result (f secret)) (shelf[i]? >>= Item.octets?), shelf)
  | .useText i f => return (.of (fun text => .result (f text)) (shelf[i]? >>= Item.text?), shelf)
  | .state i =>
    match shelf[i]? with
    | some item => return (.state item.size item.disposed, shelf)
    | none => return (.absent, shelf)
  | .dispose i =>
    match shelf[i]? with
    | some item => return (.done, shelf.set i item.dispose)
    | none => return (.absent, shelf)

/-- The answers to requests one after the other, and the shelf behind them. -/
def run (shelf : Shelf) : List (Request R) → Draw (List (Answer R) × Shelf)
  | [] => return ([], shelf)
  | request :: rest => do
    let (answer, shelf) ← shelf.step request
    let (answers, shelf) ← shelf.run rest
    return (answer :: answers, shelf)

end Shelf

/-! ## What was put there -/

/-- What a secret is. -/
inductive Content where
  | octets (secret : Bytes)
  | text (text : String)
deriving DecidableEq, Repr

/-- The octets of a secret. -/
def Content.bytes : Content → Bytes
  | .octets secret => secret
  | .text spelled => Text.utf8 spelled

/-- What was put at a place of the shelf, and whether it has been disposed of. -/
structure Slot where
  content : Content
  disposed : Bool
deriving DecidableEq, Repr

namespace Slot

/-- What a place gives away of what was put there. -/
def reveal {α : Type} (slot : Slot) (a : α) : Except Error α :=
  if slot.disposed then .error .bufferDisposed else .ok a

/-- The octets that were put there. -/
def octets? (slot : Slot) : Option (Except Error Bytes) :=
  match slot.content with
  | .octets secret => some (slot.reveal secret)
  | .text _ => none

/-- The text that was put there. -/
def text? (slot : Slot) : Option (Except Error String) :=
  match slot.content with
  | .octets _ => none
  | .text text => some (slot.reveal text)

/-- The number of octets that are there. -/
def size (slot : Slot) : Nat := if slot.disposed then 0 else slot.content.bytes.length

end Slot

/-- What was put on a shelf, in the order in which it came. -/
abbrev Contents := List Slot

namespace Contents

/-- A secret put behind the others. -/
def put (kept : Contents) (content : Content) : Contents := kept ++ [⟨content, false⟩]

/-- The answer to a request that the contents ask for, and the contents behind it. -/
def step (kept : Contents) : Request R → Answer R × Contents
  | .keep secret => (.done, kept.put (.octets secret))
  | .keepText text => (.done, kept.put (.text text))
  | .clone i =>
    match kept[i]? >>= Slot.octets? with
    | some (.ok secret) => (.done, kept.put (.octets secret))
    | some (.error e) => (.failed e, kept)
    | none => (.absent, kept)
  | .expose i => (.of .octets (kept[i]? >>= Slot.octets?), kept)
  | .use i f => (.of (fun secret => .result (f secret)) (kept[i]? >>= Slot.octets?), kept)
  | .useText i f => (.of (fun text => .result (f text)) (kept[i]? >>= Slot.text?), kept)
  | .state i =>
    match kept[i]? with
    | some slot => (.state slot.size slot.disposed, kept)
    | none => (.absent, kept)
  | .dispose i =>
    match kept[i]? with
    | some slot => (.done, kept.set i { slot with disposed := true })
    | none => (.absent, kept)

/-- The octets of mask that a request takes: as many as what it puts there has. -/
def drawn (kept : Contents) : Request R → Nat
  | .keep secret => secret.length
  | .keepText text => (Text.utf8 text).length
  | .clone i =>
    match kept[i]? >>= Slot.octets? with
    | some (.ok secret) => secret.length
    | _ => 0
  | _ => 0

/-- The answers to requests one after the other. -/
def answers (kept : Contents) : List (Request R) → List (Answer R)
  | [] => []
  | request :: rest => (kept.step request).1 :: answers (kept.step request).2 rest

/-- The contents behind some requests. -/
def behind (kept : Contents) : List (Request R) → Contents
  | [] => kept
  | request :: rest => behind (kept.step request).2 rest

/-- The octets of mask that some requests take. -/
def drawnBy (kept : Contents) : List (Request R) → Nat
  | [] => 0
  | request :: rest => kept.drawn request + drawnBy (kept.step request).2 rest

end Contents

/-! ## Keeping to the contents -/

/-- A secret is kept, or wiped, as the contents say. -/
inductive Item.Holds : Item → Slot → Prop
  | octets (secret mask : Bytes) (h : mask.length = secret.length) :
    Holds (.buffer (.withMask secret mask)) ⟨.octets secret, false⟩
  | text (text : String) (mask : Bytes) (h : mask.length = (Text.utf8 text).length) :
    Holds (.text ⟨.withMask (Text.utf8 text) mask⟩) ⟨.text text, false⟩
  | wipedOctets (b : SecretBuffer) (secret : Bytes) :
    Holds (.buffer b.dispose) ⟨.octets secret, true⟩
  | wipedText (t : SecretText) (text : String) : Holds (.text t.dispose) ⟨.text text, true⟩

theorem SecretBuffer.expose_withMask {secret mask : Bytes} (h : mask.length = secret.length) :
    (withMask secret mask).expose = .ok secret := by
  have hback := xorBytes_xorBytes secret mask (le_of_eq h.symm)
  rw [expose, withMask, if_neg Bool.false_ne_true, hback]

theorem SecretBuffer.size_withMask {secret mask : Bytes} (h : mask.length = secret.length) :
    (withMask secret mask).size = secret.length := by
  rw [size, withMask, length_xorBytes, h, Nat.min_self]

theorem SecretText.expose_withMask {text : String} {mask : Bytes}
    (h : mask.length = (Text.utf8 text).length) :
    (⟨.withMask (Text.utf8 text) mask⟩ : SecretText).expose = .ok text := by
  rw [expose, SecretBuffer.expose_withMask h]
  simp only [bind, Except.bind, Text.ofUtf8?_utf8]
  rfl

namespace Item.Holds

variable {item : Item} {slot : Slot}

theorem octets?_eq (h : item.Holds slot) : item.octets? = slot.octets? := by
  cases h with
  | octets secret mask h => exact congrArg some (SecretBuffer.expose_withMask h)
  | text | wipedOctets | wipedText => rfl

theorem text?_eq (h : item.Holds slot) : item.text? = slot.text? := by
  cases h with
  | text text mask h => exact congrArg some (SecretText.expose_withMask h)
  | octets | wipedOctets | wipedText => rfl

theorem size_eq (h : item.Holds slot) : item.size = slot.size := by
  cases h with
  | octets _ _ h | text _ _ h => exact SecretBuffer.size_withMask h
  | wipedOctets | wipedText => rfl

theorem disposed_eq (h : item.Holds slot) : item.disposed = slot.disposed := by
  cases h <;> rfl

/-- Whatever was there, it can be wiped, and more than once. -/
theorem dispose (h : item.Holds slot) : item.dispose.Holds { slot with disposed := true } := by
  cases h with
  | octets secret | wipedOctets _ secret => exact .wipedOctets _ secret
  | text text | wipedText _ text => exact .wipedText _ text

end Item.Holds

/-- The secrets on a shelf are kept as the contents say. -/
abbrev Shelf.Keeps (shelf : Shelf) (kept : Contents) : Prop := List.Forall₂ Item.Holds shelf kept

namespace Shelf.Keeps

variable {shelf : Shelf} {kept : Contents}

/-- At a place there is a secret on the shelf and in the contents, or in neither. -/
theorem at_place (h : shelf.Keeps kept) (i : Nat) :
    shelf[i]? = none ∧ kept[i]? = none
      ∨ ∃ item slot, shelf[i]? = some item ∧ kept[i]? = some slot ∧ item.Holds slot := by
  induction h generalizing i with
  | nil => exact Or.inl ⟨rfl, rfl⟩
  | cons hfirst _ ih =>
    cases i with
    | zero => exact Or.inr ⟨_, _, rfl, rfl, hfirst⟩
    | succ i => simpa only [List.getElem?_cons_succ] using ih i

/-- What is looked up at a place of the shelf is what is looked up there in the contents. -/
theorem bind_at {α : Type} {f : Item → Option α} {g : Slot → Option α}
    (hfg : ∀ item slot, Item.Holds item slot → f item = g slot) (h : shelf.Keeps kept) (i : Nat) :
    shelf[i]? >>= f = kept[i]? >>= g := by
  rcases h.at_place i with ⟨hshelf, hkept⟩ | ⟨item, slot, hshelf, hkept, hholds⟩
  · rw [hshelf, hkept]
    rfl
  · rw [hshelf, hkept]
    exact hfg item slot hholds

theorem octets?_at (h : shelf.Keeps kept) (i : Nat) :
    shelf[i]? >>= Item.octets? = kept[i]? >>= Slot.octets? :=
  bind_at (fun _ _ hholds => hholds.octets?_eq) h i

theorem text?_at (h : shelf.Keeps kept) (i : Nat) :
    shelf[i]? >>= Item.text? = kept[i]? >>= Slot.text? :=
  bind_at (fun _ _ hholds => hholds.text?_eq) h i

theorem put (h : shelf.Keeps kept) {item : Item} {content : Content}
    (hitem : item.Holds ⟨content, false⟩) : Keeps (shelf ++ [item]) (kept.put content) :=
  List.rel_append h (.cons hitem .nil)

theorem set (h : shelf.Keeps kept) {item : Item} {slot : Slot} (hitem : item.Holds slot) (i : Nat) :
    Keeps (shelf.set i item) (kept.set i slot) := by
  induction h generalizing i with
  | nil => exact .nil
  | cons hfirst hrest ih =>
    cases i with
    | zero => exact .cons hitem hrest
    | succ i => exact .cons hfirst (ih i)

end Shelf.Keeps

/-! ## Drawing masks -/

theorem SecretBuffer.ofBytes_eq (secret : Bytes) {tape : Tape} (h : secret.length ≤ tape.length) :
    ∃ mask : Bytes, mask.length = secret.length
      ∧ ofBytes secret tape = some (withMask secret mask, tape.drop secret.length) := by
  obtain ⟨mask, hmask⟩ := Draw.takes_octets secret.length tape h
  exact ⟨mask.bytes, mask.length_bytes,
    Draw.map_eq_some.2 ⟨_, Draw.map_eq_some.2 ⟨mask, hmask, rfl⟩, rfl⟩⟩

/-- A secret that has just been masked is there. -/
theorem SecretBuffer.expose_of_ofBytes {secret : Bytes} {b : SecretBuffer} {tape rest : Tape}
    (h : ofBytes secret tape = some (b, rest)) : b.expose = .ok secret := by
  obtain ⟨_, hmask, rfl⟩ := Draw.map_eq_some.1 h
  obtain ⟨mask, -, rfl⟩ := Draw.map_eq_some.1 hmask
  exact expose_withMask mask.length_bytes

theorem SecretText.ofString_eq (text : String) {tape : Tape}
    (h : (Text.utf8 text).length ≤ tape.length) :
    ∃ mask : Bytes, mask.length = (Text.utf8 text).length
      ∧ ofString text tape
        = some (⟨.withMask (Text.utf8 text) mask⟩, tape.drop (Text.utf8 text).length) := by
  obtain ⟨mask, hlength, hmask⟩ := SecretBuffer.ofBytes_eq (Text.utf8 text) h
  exact ⟨mask, hlength, Draw.map_eq_some.2 ⟨_, hmask, rfl⟩⟩

/-- A clone has a mask of its own. -/
theorem SecretBuffer.clone_eq {b : SecretBuffer} {secret : Bytes} {tape : Tape}
    (hexpose : b.expose = .ok secret) (h : secret.length ≤ tape.length) :
    ∃ mask : Bytes, mask.length = secret.length
      ∧ b.clone.run tape = some (.ok (withMask secret mask), tape.drop secret.length) := by
  obtain ⟨mask, hlength, hmask⟩ := ofBytes_eq secret h
  refine ⟨mask, hlength, ?_⟩
  rw [clone, Sealing.lift_bind_of_ok hexpose]
  exact Sealing.draw_eq_ok.2 hmask

theorem SecretBuffer.clone_of_error {b : SecretBuffer} {e : Error} (h : b.expose = .error e)
    (tape : Tape) : b.clone.run tape = some (.error e, tape) :=
  Sealing.bind_of_error (Sealing.lift_eq_error.2 ⟨h, rfl⟩)

/-! ## Requests -/

namespace Shelf.Keeps

variable {shelf : Shelf} {kept : Contents} {tape : Tape}

/-- One request is answered as the contents ask for and keeps the shelf in step with them. -/
theorem step (h : shelf.Keeps kept) (request : Request R)
    (htape : kept.drawn request ≤ tape.length) :
    ∃ shelf', shelf.step request tape
        = some (((kept.step request).1, shelf'), tape.drop (kept.drawn request))
      ∧ Keeps shelf' (kept.step request).2 := by
  cases request with
  | keep secret =>
    obtain ⟨mask, hlength, hmask⟩ := SecretBuffer.ofBytes_eq secret htape
    exact ⟨_, Draw.bind_eq_some.2 ⟨_, _, hmask, rfl⟩, h.put (.octets secret mask hlength)⟩
  | keepText text =>
    obtain ⟨mask, hlength, hmask⟩ := SecretText.ofString_eq text htape
    exact ⟨_, Draw.bind_eq_some.2 ⟨_, _, hmask, rfl⟩, h.put (.text text mask hlength)⟩
  | clone i =>
    have hoctets := h.octets?_at i
    rw [Contents.drawn] at htape
    simp only [Shelf.step, Contents.step, Contents.drawn]
    rw [← hoctets] at htape ⊢
    cases hshelf : shelf[i]? with
    | none => exact ⟨shelf, rfl, h⟩
    | some item =>
      cases item with
      | text t => exact ⟨shelf, rfl, h⟩
      | buffer b =>
        have hfound : some (Item.buffer b) >>= Item.octets? = some b.expose := rfl
        rw [hshelf, hfound] at htape
        rw [hfound]
        cases hexpose : b.expose with
        | error e =>
          have hclone := SecretBuffer.clone_of_error hexpose tape
          exact ⟨shelf, Draw.bind_eq_some.2 ⟨_, _, hclone, rfl⟩, h⟩
        | ok secret =>
          rw [hexpose] at htape
          obtain ⟨mask, hlength, hclone⟩ := SecretBuffer.clone_eq hexpose htape
          exact ⟨_, Draw.bind_eq_some.2 ⟨_, _, hclone, rfl⟩, h.put (.octets secret mask hlength)⟩
  | expose i => exact ⟨shelf, by rw [Shelf.step, h.octets?_at]; rfl, h⟩
  | use i f => exact ⟨shelf, by rw [Shelf.step, h.octets?_at]; rfl, h⟩
  | useText i f => exact ⟨shelf, by rw [Shelf.step, h.text?_at]; rfl, h⟩
  | state i =>
    simp only [Shelf.step, Contents.step]
    rcases h.at_place i with ⟨hshelf, hkept⟩ | ⟨item, slot, hshelf, hkept, hholds⟩
    · rw [hshelf, hkept]
      exact ⟨shelf, rfl, h⟩
    · rw [hshelf, hkept]
      refine ⟨shelf, ?_, h⟩
      dsimp only
      rw [hholds.size_eq, hholds.disposed_eq]
      rfl
  | dispose i =>
    simp only [Shelf.step, Contents.step]
    rcases h.at_place i with ⟨hshelf, hkept⟩ | ⟨item, slot, hshelf, hkept, hholds⟩
    · rw [hshelf, hkept]
      exact ⟨shelf, rfl, h⟩
    · rw [hshelf, hkept]
      exact ⟨_, rfl, h.set hholds.dispose i⟩

/-- So do any number of them. -/
theorem run (h : shelf.Keeps kept) (requests : List (Request R))
    (htape : kept.drawnBy requests ≤ tape.length) :
    ∃ shelf', shelf.run requests tape
        = some ((kept.answers requests, shelf'), tape.drop (kept.drawnBy requests))
      ∧ Keeps shelf' (kept.behind requests) := by
  induction requests generalizing shelf kept tape with
  | nil => exact ⟨shelf, rfl, h⟩
  | cons request rest ih =>
    rw [Contents.drawnBy] at htape
    obtain ⟨shelf', hstep, hkeeps⟩ := h.step request (le_trans (Nat.le_add_right _ _) htape)
    have hrest : (kept.step request).2.drawnBy rest ≤ (tape.drop (kept.drawn request)).length := by
      rw [List.length_drop]
      omega
    obtain ⟨shelf'', hrun, hkeeps'⟩ := ih hkeeps hrest
    rw [List.drop_drop] at hrun
    refine ⟨shelf'', Draw.bind_eq_some.2 ⟨_, _, hstep, ?_⟩, hkeeps'⟩
    exact Draw.bind_eq_some.2 ⟨_, _, hrun, rfl⟩

end Shelf.Keeps

/-! ## What requests do to the contents -/

namespace Contents

variable {kept : Contents} {i : Nat} {slot : Slot}

/-- A request puts a secret behind the others, disposes of one, or leaves the contents alone. -/
theorem step_cases (kept : Contents) (request : Request R) :
    (∃ content, (kept.step request).2 = kept.put content ∧ ∀ i, request ≠ .dispose i)
      ∨ (∃ i slot, request = .dispose i ∧ kept[i]? = some slot
        ∧ (kept.step request).2 = kept.set i { slot with disposed := true })
      ∨ (kept.step request).2 = kept ∧ ∀ i, request = .dispose i → kept[i]? = none := by
  cases request with
  | keep secret => exact Or.inl ⟨_, rfl, by simp⟩
  | keepText text => exact Or.inl ⟨_, rfl, by simp⟩
  | clone i =>
    rw [Contents.step]
    split
    · exact Or.inl ⟨_, rfl, by simp⟩
    · exact Or.inr (Or.inr ⟨rfl, by simp⟩)
    · exact Or.inr (Or.inr ⟨rfl, by simp⟩)
  | expose | use | useText => exact Or.inr (Or.inr ⟨rfl, by simp⟩)
  | state i =>
    rw [Contents.step]
    split <;> exact Or.inr (Or.inr ⟨rfl, by simp⟩)
  | dispose i =>
    rw [Contents.step]
    split
    · next slot hslot => exact Or.inr (Or.inl ⟨i, slot, rfl, hslot, rfl⟩)
    · next hnone =>
      refine Or.inr (Or.inr ⟨rfl, ?_⟩)
      rintro j ⟨⟩
      exact hnone

/-- What was put at a place stays, and a request disposes of it exactly if it asks for that. -/
theorem getElem?_step (h : kept[i]? = some slot) (request : Request R) :
    ∃ disposed, (kept.step request).2[i]? = some ⟨slot.content, disposed⟩
      ∧ (disposed = true ↔ slot.disposed = true ∨ request = .dispose i) := by
  have hlt : i < kept.length := (List.getElem?_eq_some_iff.1 h).1
  rcases kept.step_cases request with ⟨content, hstep, hother⟩ | ⟨j, other, rfl, hj, hstep⟩
    | ⟨hstep, hnone⟩
  · refine ⟨slot.disposed, ?_, by simp [hother i]⟩
    rw [hstep, put, List.getElem?_append_left hlt, h]
  · by_cases hij : j = i
    · subst hij
      obtain rfl := Option.some.inj (hj.symm.trans h)
      exact ⟨true, by rw [hstep, List.getElem?_set_self hlt], by simp⟩
    · exact ⟨slot.disposed, by rw [hstep, List.getElem?_set_ne hij, h], by simp [hij]⟩
  · refine ⟨slot.disposed, by rw [hstep, h], ?_⟩
    have hother : request ≠ .dispose i := by
      intro hrequest
      rw [hnone i hrequest] at h
      cases h
    simp [hother]

/-- So it is with any number of requests. -/
theorem getElem?_behind (h : kept[i]? = some slot) (requests : List (Request R)) :
    ∃ disposed, (kept.behind requests)[i]? = some ⟨slot.content, disposed⟩
      ∧ (disposed = true ↔ slot.disposed = true ∨ Request.dispose i ∈ requests) := by
  induction requests generalizing kept slot with
  | nil => exact ⟨slot.disposed, h, by simp⟩
  | cons request rest ih =>
    obtain ⟨disposed, hstep, hiff⟩ := getElem?_step h request
    obtain ⟨disposed', hrest, hiff'⟩ := ih hstep
    refine ⟨disposed', hrest, ?_⟩
    rw [hiff', hiff, or_assoc, List.mem_cons, eq_comm (a := request)]

theorem behind_append (kept : Contents) (requests more : List (Request R)) :
    kept.behind (requests ++ more) = (kept.behind requests).behind more := by
  induction requests generalizing kept with
  | nil => rfl
  | cons request rest ih => exact ih _

theorem answers_append (kept : Contents) (requests more : List (Request R)) :
    kept.answers (requests ++ more)
      = kept.answers requests ++ (kept.behind requests).answers more := by
  induction requests generalizing kept with
  | nil => rfl
  | cons request rest ih =>
    rw [List.cons_append, answers, answers, ih, List.cons_append]
    rfl

end Contents

/-! ## Failures -/

theorem Slot.reveal_eq_error {α : Type} {slot : Slot} {a : α} {e : Error}
    (h : slot.reveal a = .error e) : e = .bufferDisposed := by
  rw [reveal] at h
  split at h
  · exact (Except.error.inj h).symm
  · cases h

theorem Slot.octets?_eq_error {slot : Slot} {e : Error} (h : slot.octets? = some (.error e)) :
    e = .bufferDisposed := by
  rw [octets?] at h
  split at h
  · exact reveal_eq_error (Option.some.inj h)
  · cases h

theorem Slot.text?_eq_error {slot : Slot} {e : Error} (h : slot.text? = some (.error e)) :
    e = .bufferDisposed := by
  rw [text?] at h
  split at h
  · cases h
  · exact reveal_eq_error (Option.some.inj h)

theorem Answer.of_eq_failed {α : Type} {found : α → Answer R} {x : Option (Except Error α)}
    {e : Error} (hfound : ∀ a, found a ≠ .failed e) (h : Answer.of found x = .failed e) :
    x = some (.error e) := by
  cases x with
  | none => cases h
  | some result =>
    cases result with
    | ok a => exact absurd h (hfound a)
    | error e' =>
      cases h
      rfl

namespace Contents

/-- A request fails only for what is disposed of. -/
theorem step_failed {kept : Contents} {request : Request R} {e : Error}
    (h : (kept.step request).1 = .failed e) : e = .bufferDisposed := by
  have hoctets : ∀ i : Nat, kept[i]? >>= Slot.octets? = some (.error e) → e = .bufferDisposed := by
    intro i hi
    obtain ⟨slot, -, hslot⟩ := Option.bind_eq_some_iff.1 hi
    exact Slot.octets?_eq_error hslot
  cases request with
  | keep | keepText => cases h
  | clone i =>
    rw [step] at h
    split at h
    · cases h
    · next hfound =>
      cases h
      exact hoctets i hfound
    · cases h
  | expose i => exact hoctets i (Answer.of_eq_failed (by simp) h)
  | use i f => exact hoctets i (Answer.of_eq_failed (by simp) h)
  | useText i f =>
    obtain ⟨slot, -, hslot⟩ := Option.bind_eq_some_iff.1 (Answer.of_eq_failed (by simp) h)
    exact Slot.text?_eq_error hslot
  | state i | dispose i =>
    rw [step] at h
    split at h <;> cases h

theorem failed_of_mem_answers {kept : Contents} {requests : List (Request R)} {e : Error}
    (h : .failed e ∈ kept.answers requests) : e = .bufferDisposed := by
  induction requests generalizing kept with
  | nil => cases h
  | cons request rest ih =>
    rcases List.mem_cons.1 h with h | h
    · exact step_failed h.symm
    · exact ih h

end Contents

/-! ## All together -/

/-- **Secrets are kept until they are disposed of, each by itself.** Take any requests, one after
    the other, from an empty shelf, with masks of any octets. They are answered from the contents,
    which know of no masks: as long as a secret is not disposed of, with its octets or its text as
    they were put there and with their number, and from then on with the failure that it is disposed
    of and with no octets; a clone is a secret of its own. What stands on the shelf then is the
    contents, place by place. There is no other failure, so a secret text is always read as a text.
    And whatever is requested further, a secret stays what it is, and is disposed of exactly if it
    was so before or one of these requests asks for it. -/
theorem secrets_kept (requests : List (Request R)) (tape : Tape)
    (htape : Contents.drawnBy [] requests ≤ tape.length) :
    let kept := Contents.behind [] requests
    (∃ shelf, Shelf.run [] requests tape
        = some ((Contents.answers [] requests, shelf), tape.drop (Contents.drawnBy [] requests))
      ∧ shelf.length = kept.length
      ∧ ∀ (i : Nat) (slot : Slot), kept[i]? = some slot → ∃ item, shelf[i]? = some item
        ∧ item.octets? = slot.octets? ∧ item.text? = slot.text?
        ∧ item.size = slot.size ∧ item.disposed = slot.disposed)
      ∧ (∀ e, .failed e ∈ Contents.answers [] requests → e = .bufferDisposed)
      ∧ ∀ more : List (Request R),
        Contents.answers [] (requests ++ more) = Contents.answers [] requests ++ kept.answers more
          ∧ ∀ (i : Nat) (slot : Slot), kept[i]? = some slot →
            ∃ disposed, (Contents.behind [] (requests ++ more))[i]? = some ⟨slot.content, disposed⟩
              ∧ (disposed = true ↔ slot.disposed = true ∨ .dispose i ∈ more) := by
  intro kept
  obtain ⟨shelf, hrun, hkeeps⟩ := Shelf.Keeps.run .nil requests htape
  refine ⟨⟨shelf, hrun, hkeeps.length_eq, ?_⟩, fun e => Contents.failed_of_mem_answers,
    fun more => ⟨Contents.answers_append [] requests more, ?_⟩⟩
  · intro i slot hslot
    rcases hkeeps.at_place i with ⟨-, hnone⟩ | ⟨item, slot', hitem, hslot', hholds⟩
    · exact absurd (hslot.symm.trans hnone) (by simp)
    · obtain rfl := Option.some.inj (hslot.symm.trans hslot')
      exact ⟨item, hitem, hholds.octets?_eq, hholds.text?_eq, hholds.size_eq, hholds.disposed_eq⟩
  · intro i slot hslot
    rw [Contents.behind_append]
    exact Contents.getElem?_behind hslot more

/-- A buffer, its clone and a text, asked for before and after two of them are disposed of. -/
def outliving : List (Request Nat) :=
  [.keep [1, 2], .clone 0, .dispose 0, .expose 0, .clone 0, .expose 1, .keepText "é",
    .useText 2 String.length, .dispose 2, .dispose 2, .useText 2 String.length, .state 2, .state 1]

/-- A clone outlives what it was made of, and a text has as many octets as its spelling. -/
theorem secrets_kept_clone_outlives_original :
    Contents.drawnBy [] outliving ≤ (List.replicate 6 165).length
      ∧ Contents.answers [] outliving
        = [.done, .done, .done, .failed .bufferDisposed, .failed .bufferDisposed, .octets [1, 2],
          .done, .result 1, .done, .done, .failed .bufferDisposed, .state 0 true, .state 2 false]
      ∧ ∃ shelf, Shelf.run [] outliving (List.replicate 6 165)
        = some ((Contents.answers [] outliving, shelf),
          (List.replicate 6 165).drop (Contents.drawnBy [] outliving)) := by
  have htape : Contents.drawnBy [] outliving ≤ (List.replicate 6 165).length := by decide +kernel
  obtain ⟨⟨shelf, hrun, -⟩, -⟩ := secrets_kept outliving (List.replicate 6 165) htape
  exact ⟨htape, by decide +kernel, shelf, hrun⟩

end SealedEnvelope
