import SealedEnvelope.Config
import SealedEnvelope.Hash.Hmac
import SealedEnvelope.Text.Utf8

set_option autoImplicit false

/-! # Symmetric keys

A shared secret is never a key itself. The key is derived from it under a fixed context, so that no
other protocol with the same secret arrives at the same key. -/

namespace SealedEnvelope

/-- The context that keys are bound to. -/
def keyContext : String := "fabstir-ecies/v1"

/-- A key of `size` octets for a shared secret. -/
def expandSecret (size : Nat) (secret : Bytes) : Octets size :=
  Hkdf.expand size (Hkdf.extract (List.replicate 32 0) secret).bytes (Text.utf8 keyContext)

/-- The symmetric key of a shared secret, in the size that the cipher takes. -/
def symmetricKey (secret : Bytes) : Octets 32 := expandSecret 32 secret

namespace Config

/-- The symmetric key of a shared secret, in the size that the configuration declares. -/
def symmetricKey (config : Config) (secret : Bytes) : Octets 32 :=
  ⟨(expandSecret config.keySize secret).bytes, by rw [Octets.length_bytes, config.keySize_eq]⟩

/-- The size that a configuration declares is the one that the cipher takes. -/
theorem symmetricKey_eq (config : Config) (secret : Bytes) :
    config.symmetricKey secret = SealedEnvelope.symmetricKey secret := by
  apply Octets.ext
  show (expandSecret config.keySize secret).bytes = (expandSecret 32 secret).bytes
  rw [config.keySize_eq]

/-- The symmetric key of a shared secret, which may not be empty. -/
def deriveSymmetricKey (config : Config) (secret : Bytes) : Except Error (Octets 32) :=
  if secret.isEmpty then .error (.invalidKey "shared_secret" "empty input")
  else .ok (config.symmetricKey secret)

end Config

end SealedEnvelope
