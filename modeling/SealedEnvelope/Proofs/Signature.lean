import SealedEnvelope.Proofs.Curve.Scalar
import SealedEnvelope.Proofs.PublicKey
import SealedEnvelope.Signature

set_option autoImplicit false

/-! # Signatures hold

What is signed is two scalars, the nonce's `commitment` and the `response`, the latter or its
negative, whichever is low. The verifier computes the nonce's multiple of the generator or its
negative from them (`holds_of_response`), and the two agree in the first coordinate. So under the
public key of the signer every signature holds, in each form of that key (`verify_sign`). -/

namespace SealedEnvelope.Signature

open Curve
open scoped Fin.CommRing

variable {key : PrivateKey} {message : Bytes} {z k r s : Scalar}

/-! ## The nonce -/

theorem nonzeroScalar?_eq_some_iff {bytes : Bytes} (h : bytes.length = 32) {a : Scalar} :
    nonzeroScalar? bytes = some a ↔ a ≠ 0 ∧ bytes = bigEndian 32 a.val := by
  have hfits : a.val < 256 ^ 32 := lt_trans a.isLt (by decide)
  rw [nonzeroScalar?]
  constructor
  · intro hsome
    split_ifs at hsome with hlt hzero
    obtain rfl := Option.some.inj hsome
    refine ⟨fun ha => hzero (congrArg Fin.val ha), ?_⟩
    rw [← h]
    exact (bigEndian_ofBigEndian bytes).symm
  · rintro ⟨ha, rfl⟩
    have hval : a.val ≠ 0 := fun h => ha (Fin.val_eq_zero_iff.1 h)
    simp only [ofBigEndian_bigEndian hfits]
    rw [dif_pos a.isLt, if_neg hval]

theorem ne_zero_of_nonceFrom {attempts : Nat} {k v : Bytes} {a : Scalar}
    (h : nonceFrom attempts k v = some a) : a ≠ 0 := by
  -- Induction on the attempts that are left: the one that succeeds gives a scalar other than zero.
  induction attempts generalizing k v with
  | zero => cases h
  | succ attempts ih =>
    rw [nonceFrom] at h
    dsimp only at h
    split at h
    · next hcandidate =>
      obtain rfl := Option.some.inj h
      exact ((nonzeroScalar?_eq_some_iff (Octets.length_bytes _)).1 hcandidate).1
    · exact ih h

theorem ne_zero_of_nonce (h : nonce key z = some k) : k ≠ 0 := ne_zero_of_nonceFrom h

/-! ## The two parts of a signature -/

/-- The first part of a signature, from the nonce alone. -/
def commitment (k : Scalar) : Scalar := Fin.ofNat order (generator.mul k.val).x.val

/-- The second part of a signature, before it is made low. -/
def response (key : PrivateKey) (z k : Scalar) : Scalar :=
  inverse k * (z + commitment k * Fin.ofNat order key.scalar)

/-- The nonce for a key and a message gives two parts other than zero. -/
def NonceFits (key : PrivateKey) (message : Bytes) : Prop :=
  ∃ k ∈ nonce key (digest message), commitment k ≠ 0 ∧ response key (digest message) k ≠ 0

instance (key : PrivateKey) (message : Bytes) : Decidable (NonceFits key message) :=
  inferInstanceAs (Decidable (∃ k ∈ _, _))

/-- The lower of a scalar and its negative. -/
def lower (s : Scalar) : Scalar := if IsLow s then s else -s

theorem isLow_lower (s : Scalar) : IsLow (lower s) := by
  unfold lower
  split
  · assumption
  · next hhigh =>
    have hs : s ≠ 0 := by
      rintro rfl
      exact hhigh (by decide)
    have hval : (-s).val = order - s.val := by rw [Fin.val_neg, if_neg hs]
    have hodd : order % 2 = 1 := by decide
    rw [IsLow] at hhigh ⊢
    omega

theorem lower_eq_or (s : Scalar) : lower s = s ∨ lower s = -s := ite_eq_or_eq _ _ _

theorem lower_ne_zero (h : s ≠ 0) : lower s ≠ 0 := by
  rcases lower_eq_or s with hlower | hlower
  · rwa [hlower]
  · rwa [hlower, neg_ne_zero]

theorem encode_eq (r s : Scalar) :
    (encode r s).bytes = bigEndian 32 r.val ++ bigEndian 32 (lower s).val := rfl

/-- A signature reads back as its two parts. -/
theorem decode?_encode (hr : r ≠ 0) (hs : s ≠ 0) :
    decode? (encode r s).bytes = some (r, lower s) := by
  have hfirst : nonzeroScalar? (bigEndian 32 r.val) = some r :=
    (nonzeroScalar?_eq_some_iff (by simp)).2 ⟨hr, rfl⟩
  have hsecond : nonzeroScalar? (bigEndian 32 (lower s).val) = some (lower s) :=
    (nonzeroScalar?_eq_some_iff (by simp)).2 ⟨lower_ne_zero hs, rfl⟩
  rw [decode?, if_neg (by simp [size]), encode_eq, List.take_left' (by simp),
    List.drop_left' (by simp), hfirst, hsecond]
  exact if_pos (isLow_lower s)

theorem signWith_of_nonce (hk : nonce key (digest message) = some k) (hr : commitment k ≠ 0)
    (hs : response key (digest message) k ≠ 0) :
    signWith key message = some (encode (commitment k) (response key (digest message) k)) := by
  simp only [signWith, hk, Option.bind_eq_bind, Option.bind_some]
  exact if_neg (not_or.2 ⟨hr, hs⟩)

/-! ## Verifying -/

theorem mul_response (hk : k ≠ 0) :
    k * response key z k = z + commitment k * Fin.ofNat order key.scalar := by
  rw [response, ← mul_assoc, mul_inverse_scalar hk, one_mul]

/-- The response and its negative lead back to the nonce and its negative. -/
theorem mul_inverse_response (hk : k ≠ 0) (hs : response key z k ≠ 0) {s : Scalar}
    (h : s = response key z k ∨ s = -response key z k) :
    z * inverse s + commitment k * inverse s * Fin.ofNat order key.scalar = k
      ∨ z * inverse s + commitment k * inverse s * Fin.ofNat order key.scalar = -k := by
  have hresponse : k * response key z k = z + commitment k * Fin.ofNat order key.scalar :=
    mul_response hk
  generalize response key z k = t, commitment k = c, Fin.ofNat order key.scalar = d at *
  rcases h with rfl | rfl
  · have hinverse := mul_inverse_scalar hs
    exact Or.inl (by linear_combination k * hinverse - inverse s * hresponse)
  · have hinverse := mul_inverse_scalar (neg_ne_zero.2 hs)
    exact Or.inr (by linear_combination -k * hinverse - inverse (-t) * hresponse)

/-- What the verifier computes under the public key of the signer. -/
theorem verifier_point (key : PrivateKey) (a b : Scalar) :
    (generator.mul a.val).add (key.publicKey.mul b.val)
      = pairOf (multiple (a + b * Fin.ofNat order key.scalar)) := by
  rw [mul_generator, PrivateKey.publicKey_eq, ← multiple_ofNat, mul_pairOf_multiple, add_pairOf,
    multiple_add]

theorem holds_of_response (hk : k ≠ 0) (hs : response key z k ≠ 0) :
    holds key.publicKey z (commitment k) (lower (response key z k)) = true := by
  -- Both multiples have the first coordinate that the commitment is made of.
  have hpoint : ∃ A, (pairOf A).x = (generator.mul k.val).x ∧ A ≠ 0
      ∧ (generator.mul (z * inverse (lower (response key z k))).val).add
          (key.publicKey.mul (commitment k * inverse (lower (response key z k))).val)
        = pairOf A := by
    rw [verifier_point, mul_generator]
    have hne := multiple_ne_zero hk
    rcases mul_inverse_response hk hs (lower_eq_or _) with h | h
    · rw [h]
      exact ⟨_, rfl, hne, rfl⟩
    · rw [h, multiple_neg]
      exact ⟨_, x_pairOf_neg _, neg_ne_zero.2 hne, rfl⟩
  obtain ⟨A, hx, hne, hA⟩ := hpoint
  have hfinite := (onCurve_pairOf hne).ne_zero
  rw [holds, hA, decide_eq_true_eq]
  refine ⟨not_and_or.1 hfinite, ?_⟩
  rw [hx]
  rfl

/-! ## Signing and verifying -/

/-- A key for signing has 24 to 32 octets, and what counts is the number that they denote. -/
theorem signingKey_eq_ok_iff {bytes : Bytes} :
    signingKey bytes = .ok key
      ↔ (24 ≤ bytes.length ∧ bytes.length ≤ 32) ∧ ofBigEndian bytes = key.scalar := by
  rw [signingKey]
  by_cases hbounds : 24 ≤ bytes.length ∧ bytes.length ≤ 32
  · rw [if_pos hbounds, and_iff_right hbounds, ← PrivateKey.ofNat?_eq_some_iff]
    cases PrivateKey.ofNat? (ofBigEndian bytes) <;> simp
  · rw [if_neg hbounds]
    simp [hbounds]

/-- A private key of 32 octets is the same for signing. -/
theorem signingKey_of_ofBytes {bytes : Bytes} (h : PrivateKey.ofBytes bytes = .ok key) :
    signingKey bytes = .ok key := by
  obtain rfl := PrivateKey.ofBytes_eq_ok_iff.1 h
  exact signingKey_eq_ok_iff.2 ⟨by simp, Octets.toNat_ofNat key.scalar_lt⟩

theorem sign_eq_ok_iff {bytes : Bytes} {signature : Octets 64} :
    sign bytes message = .ok signature
      ↔ ∃ key, signingKey bytes = .ok key ∧ signWith key message = some signature := by
  rw [sign, bind_eq_ok]
  refine exists_congr fun key => and_congr_right fun _ => ?_
  generalize signWith key message = signed
  cases signed <;> simp

theorem verify_of_holds {form signature : Bytes} {P : Point} (hparse : parsePublicKey form = .ok P)
    (hdecode : decode? signature = some (r, s)) (hholds : holds P (digest message) r s = true) :
    verify form message signature = .ok () := by
  rw [verify, hparse]
  simp only [bind, Except.bind, hdecode, if_pos hholds]

/-- **Signatures verify.** Let a private key be accepted, and the nonce for it and a message fit.
    The message is signed with the key, in 64 octets that are two scalars other than zero, the
    second no more than half the order; and in each of the three forms of the key's public key, the
    signature is the message's. -/
theorem verify_sign {bytes : Bytes} (hkey : PrivateKey.ofBytes bytes = .ok key)
    (hnonce : NonceFits key message) :
    ∃ (signature : Octets 64) (r s : Scalar), sign bytes message = .ok signature
      ∧ signature.bytes = bigEndian 32 r.val ++ bigEndian 32 s.val
      ∧ r ≠ 0 ∧ s ≠ 0 ∧ s.val ≤ order / 2
      ∧ ∀ form, key.publicKey.Described form → verify form message signature.bytes = .ok () := by
  obtain ⟨k, hk, hr, hs⟩ := hnonce
  have hholds := holds_of_response (ne_zero_of_nonce hk) hs
  refine ⟨encode (commitment k) (response key (digest message) k), commitment k,
    lower (response key (digest message) k), ?_, encode_eq _ _, hr, lower_ne_zero hs,
    isLow_lower _, fun form hform => ?_⟩
  · exact sign_eq_ok_iff.2 ⟨key, signingKey_of_ofBytes hkey, signWith_of_nonce hk hr hs⟩
  · have hparse := parsePublicKey_publicKey (Point.form_iff.2 (Or.inl hform))
    exact verify_of_holds hparse (decode?_encode hr hs) hholds

/-- What the least key draws for a message of one octet. -/
theorem nonce_least_key :
    nonce ⟨1, by decide, by decide⟩ (digest [2])
      = some 74923219900676080510421684352945330053498182769676588041053117566602535989594 := by
  have hdigest : digest [2]
      = 99398763056634537812744552006896172984671876672520535998211840060697129507206 := by
    decide +kernel
  rw [hdigest]
  decide +kernel

theorem nonceFits_least_key : NonceFits ⟨1, by decide, by decide⟩ [2] := by
  refine ⟨_, nonce_least_key, ?_, ?_⟩
  · decide +kernel
  · decide +kernel

/-- The least key and a message whose response is high, so that its negative is signed with. -/
theorem verify_sign_high_response :
    let key : PrivateKey := ⟨1, by decide, by decide⟩
    PrivateKey.ofBytes key.octets.bytes = .ok key ∧ NonceFits key [2]
      ∧ (∃ k ∈ nonce key (digest [2]), ¬IsLow (response key (digest [2]) k))
      ∧ ∃ signature : Octets 64, sign key.octets.bytes [2] = .ok signature
        ∧ verify key.publicKey.compressed.bytes [2] signature.bytes = .ok ()
        ∧ verify key.publicKey.uncompressed.bytes [2] signature.bytes = .ok () := by
  intro key
  have hkey : PrivateKey.ofBytes key.octets.bytes = .ok key := PrivateKey.ofBytes_octets key
  obtain ⟨signature, -, -, hsign, -, -, -, -, hverify⟩ := verify_sign hkey nonceFits_least_key
  have hhigh : ¬IsLow (response key (digest [2])
      74923219900676080510421684352945330053498182769676588041053117566602535989594) := by
    decide +kernel
  exact ⟨hkey, nonceFits_least_key, ⟨_, nonce_least_key, hhigh⟩, signature, hsign,
    hverify _ .compressed, hverify _ .uncompressed⟩

end SealedEnvelope.Signature
