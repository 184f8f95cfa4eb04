import SealedEnvelope.Proofs.Cipher.Gcm
import SealedEnvelope.Stream.Chunk

set_option autoImplicit false

/-! # The chunks of a payload

`cut n payload` are the pieces that a payload is cut into and `Context.closeChunks` the chunks they
become, numbered in order and the last one marked. A chunk opens to the piece it was closed over
(`Context.open?_close`). -/

namespace SealedEnvelope.Stream

/-! ## Pieces -/

/-- The pieces of a payload, of `n` octets each but the last; an empty payload is one piece. -/
def cut (n : Nat) (payload : Bytes) : List Bytes := payload.take n :: blocks n (payload.drop n)

section Pieces

variable {n : Nat} {payload : Bytes}

theorem flatten_cut (hn : 0 < n) : (cut n payload).flatten = payload := by
  rw [cut, List.flatten_cons, flatten_blocks hn, List.take_append_drop]

theorem cut_ne_nil (n : Nat) (payload : Bytes) : cut n payload ≠ [] := List.cons_ne_nil _ _

theorem length_le_of_mem_cut (hn : 0 < n) {piece : Bytes} (h : piece ∈ cut n payload) :
    piece.length ≤ n := by
  rcases List.mem_cons.1 h with rfl | h
  · exact List.length_take_le _ _
  · exact length_le_of_mem_blocks hn h

theorem length_cut_le (hn : 0 < n) {k : Nat} (hk : 1 ≤ k) (h : payload.length ≤ k * n) :
    (cut n payload).length ≤ k := by
  obtain ⟨k, rfl⟩ := Nat.exists_eq_add_of_le' hk
  rw [Nat.succ_mul] at h
  rw [cut, List.length_cons]
  exact Nat.succ_le_succ (length_blocks_le hn (by rw [List.length_drop]; omega))

end Pieces

/-! ## Closing and opening -/

@[simp] theorem Chunk.length_sealed (c : Chunk) : c.sealed.length = c.ciphertext.length + 16 := by
  simp [Chunk.sealed]

theorem Chunk.isFinal_iff {c : Chunk} {final : Bool} (h : c.flags = flagsOf final) :
    c.isFinal = final := by
  rw [Chunk.isFinal, h]
  cases final <;> decide

namespace Context

variable (ctx : Context)

@[simp] theorem index_close (index : Nat) (final : Bool) (piece : Bytes) :
    (ctx.close index final piece).index = index := rfl

@[simp] theorem flags_close (index : Nat) (final : Bool) (piece : Bytes) :
    (ctx.close index final piece).flags = flagsOf final := rfl

@[simp] theorem length_close (index : Nat) (final : Bool) (piece : Bytes) :
    (ctx.close index final piece).ciphertext.length = piece.length := by
  simp [close]

@[simp] theorem isFinal_close (index : Nat) (final : Bool) (piece : Bytes) :
    (ctx.close index final piece).isFinal = final :=
  Chunk.isFinal_iff rfl

theorem open?_close (index : Nat) (final : Bool) (piece : Bytes) :
    ctx.open? (ctx.close index final piece) = some piece :=
  Gcm.decrypt?_encrypt ..

/-- The chunks that pieces become, numbered from `index` on, the last one marked. -/
def closeChunks (index : Nat) : List Bytes → List Chunk
  | [] => []
  | piece :: rest => ctx.close index rest.isEmpty piece :: closeChunks (index + 1) rest

@[simp] theorem length_closeChunks (index : Nat) (pieces : List Bytes) :
    (ctx.closeChunks index pieces).length = pieces.length := by
  induction pieces generalizing index with
  | nil => rfl
  | cons piece rest ih => rw [closeChunks, List.length_cons, ih, List.length_cons]

/-- Each of the chunks is a piece closed under its number, marked if it is the last. -/
theorem getElem?_closeChunks (index : Nat) (pieces : List Bytes) (i : Nat) :
    (ctx.closeChunks index pieces)[i]?
      = pieces[i]?.map (ctx.close (index + i) (decide (i + 1 = pieces.length))) := by
  induction pieces generalizing index i with
  | nil => simp [closeChunks]
  | cons piece rest ih =>
    cases i with
    | zero => cases rest <;> simp [closeChunks]
    | succ i => simp [closeChunks, ih, Nat.add_assoc, Nat.add_comm 1]

theorem exists_of_mem_closeChunks {index : Nat} {pieces : List Bytes} {c : Chunk}
    (h : c ∈ ctx.closeChunks index pieces) :
    ∃ (i : Nat) (hi : i < pieces.length),
      c = ctx.close (index + i) (decide (i + 1 = pieces.length)) pieces[i] := by
  obtain ⟨i, hi⟩ := List.mem_iff_getElem?.1 h
  rw [getElem?_closeChunks, Option.map_eq_some_iff] at hi
  obtain ⟨piece, hpiece, rfl⟩ := hi
  obtain ⟨hi, rfl⟩ := List.getElem?_eq_some_iff.1 hpiece
  exact ⟨i, hi, rfl⟩

theorem length_sealed_le_of_mem_closeChunks {n index : Nat} {pieces : List Bytes} {c : Chunk}
    (hlength : ∀ p ∈ pieces, p.length ≤ n) (h : c ∈ ctx.closeChunks index pieces) :
    c.sealed.length ≤ n + 16 := by
  obtain ⟨i, hi, rfl⟩ := ctx.exists_of_mem_closeChunks h
  rw [Chunk.length_sealed, length_close]
  exact Nat.add_le_add_right (hlength _ (List.getElem_mem hi)) 16

end Context

end SealedEnvelope.Stream
