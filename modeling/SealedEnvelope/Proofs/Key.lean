import SealedEnvelope.KeyWrap
import SealedEnvelope.Proofs.Curve.Encoding

set_option autoImplicit false

/-! # Keys and what two of them agree on

The public key of a private one is a point of the curve (`PrivateKey.onCurve_publicKey`), so each of
its forms reads back as it. Multiples of the generator commute, and so both owners of two key pairs
arrive at the same secret (`PrivateKey.agree_comm`). -/

namespace SealedEnvelope

open Curve (pairOf base Point)

/-! ## Private keys as octets -/

theorem PrivateKey.ofNat?_eq_some_iff {n : Nat} {key : PrivateKey} :
    PrivateKey.ofNat? n = some key ↔ n = key.scalar := by
  constructor
  · intro h
    simp only [ofNat?, Option.dite_none_right_eq_some, Option.some.injEq] at h
    obtain ⟨_, rfl⟩ := h
    rfl
  · rintro rfl
    rw [ofNat?, dif_pos ⟨key.pos, key.lt_order⟩]

theorem PrivateKey.ofBytes_eq_ok_iff {bytes : Bytes} {key : PrivateKey} :
    PrivateKey.ofBytes bytes = .ok key ↔ bytes = key.octets.bytes := by
  have hfits : key.scalar < 256 ^ 32 := lt_trans key.lt_order (by decide)
  rw [ofBytes, octets, Octets.bytes_ofNat]
  split_ifs with hlen
  · constructor
    · intro h
      cases h
    · rintro rfl
      exact absurd (length_bigEndian ..) hlen
  · have hlen : bytes.length = 32 := not_not.1 hlen
    constructor
    · intro h
      split at h
      · next hkey =>
        obtain rfl := Except.ok.inj h
        rw [← ofNat?_eq_some_iff.1 hkey, ← hlen]
        exact (bigEndian_ofBigEndian bytes).symm
      · cases h
    · rintro rfl
      rw [ofBigEndian_bigEndian hfits, ofNat?_eq_some_iff.2 rfl]

theorem PrivateKey.ofBytes_octets (key : PrivateKey) :
    PrivateKey.ofBytes key.octets.bytes = .ok key :=
  ofBytes_eq_ok_iff.2 rfl

/-! ## Key pairs -/

theorem PrivateKey.scalar_lt (key : PrivateKey) : key.scalar < 2 ^ 256 :=
  lt_trans key.lt_order Curve.order_lt

theorem PrivateKey.publicKey_eq (key : PrivateKey) :
    key.publicKey = pairOf (key.scalar • base) := by
  rw [publicKey, ← Curve.pairOf_base, Curve.mul_pairOf base key.scalar_lt]

theorem PrivateKey.onCurve_publicKey (key : PrivateKey) : key.publicKey.OnCurve := by
  rw [publicKey_eq]
  exact Curve.onCurve_pairOf (Curve.nsmul_base_ne_zero key.pos key.lt_order)

/-- Two owners of key pairs agree on one secret. -/
theorem PrivateKey.agree_comm (a b : PrivateKey) : a.agree b.publicKey = b.agree a.publicKey := by
  rw [agree, agree, publicKey_eq, publicKey_eq, Curve.mul_pairOf _ a.scalar_lt,
    Curve.mul_pairOf _ b.scalar_lt, ← mul_nsmul, ← mul_nsmul, Nat.mul_comm]

theorem PrivateKey.sharedKey_comm (a b : PrivateKey) :
    a.sharedKey b.publicKey = b.sharedKey a.publicKey := by
  rw [sharedKey, sharedKey, agree_comm]

/-- A form of a key pair's public key reads back as that key. -/
theorem parsePublicKey_publicKey {key : PrivateKey} {bytes : Bytes}
    (h : key.publicKey.Form bytes) : parsePublicKey bytes = .ok key.publicKey :=
  parsePublicKey_eq_ok_iff.2 ⟨key.onCurve_publicKey, h⟩

/-- What is no public key is refused as such. -/
theorem parsePublicKey_eq_error {bytes : Bytes} {e : Error} (h : parsePublicKey bytes = .error e) :
    ∃ reason, e = .invalidKey "public" reason := by
  have hinvalid {text : String}
      (h : (.error (.invalidKey "public" text) : Except Error Point) = .error e) :
      ∃ reason, e = .invalidKey "public" reason :=
    ⟨text, (Except.error.inj h).symm⟩
  simp only [parsePublicKey] at h
  split at h
  · split_ifs at h
    -- Octets in one of the three forms may still stand for no point of the curve.
    all_goals first
      | exact hinvalid h
      | split at h
        · cases h
        · exact hinvalid h
  · exact hinvalid h

end SealedEnvelope
