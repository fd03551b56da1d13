import Swpasskey.Bytes

/-!
# Keys, backends and the crypto provider

The data of `crypto::KeyBackend` and `crypto::Provider`. What OpenSSL, the TPM and the
Secure Enclave compute is not part of this development: the deterministic functions are
the fields of a `Provider`, any functions of their type, and everything else a call to
them may answer (a new key, a signature, a failure) comes from the environment of the
call.
-/

namespace Swpasskey

/-- `crypto::BackendKind`. -/
inductive BackendKind
  | software | tpm2 | secureEnclave
  deriving DecidableEq, Repr

/-- The stored value of a backend kind. -/
def BackendKind.code : BackendKind → UInt64
  | software => 0
  | tpm2 => 1
  | secureEnclave => 2

/-- `crypto::P256PublicKey`. -/
structure P256PublicKey where
  x : Block 32
  y : Block 32
  deriving DecidableEq

/-- What `KeyBackend::generate` produces: the public key with, on the software backend, the
private scalar and, on the hardware backends, a handle, which is **never empty**. -/
structure KeyMaterial where
  pub : P256PublicKey
  scalar : Block 32
  handle : Bytes
  handle_ne_nil : handle ≠ []

/-- `crypto::SigningKey`: a generated or loaded key, as far as its users look at it. -/
structure SigningKey where
  kind : BackendKind
  pub : P256PublicKey
  /-- What the backend knows the key by: the scalar, or the handle. -/
  ref : Bytes

/-- `Provider::SoftwareEcdhKey`, by its private scalar. -/
structure EcdhKey where
  scalar : Block 32
  deriving DecidableEq

/-- The deterministic functions of `crypto::Provider` and of the OpenSSL helpers beside
it. -/
structure Provider where
  sha256 : Bytes → Block 32
  hmacSha256 : Bytes → Bytes → Block 32
  hkdfSha256 : Bytes → Bytes → Bytes → Block 32
  aes256cbcEncrypt : Block 32 → Block 16 → Bytes → Bytes
  aes256cbcDecrypt : Block 32 → Block 16 → Bytes → Bytes
  /-- `SoftwareEcdhKey::pub`. -/
  ecdhPub : EcdhKey → P256PublicKey
  /-- `SoftwareEcdhKey::shared_secret_x`; fails on a peer that is not on the curve. -/
  sharedSecretX : EcdhKey → P256PublicKey → Option (Block 32)
  p256PubFromScalar : Block 32 → Option P256PublicKey
  /-- `make_self_signed_p256_cert`, by scalar, public key and subject. -/
  makeSelfSignedP256Cert : Block 32 → P256PublicKey → Bytes → Option Bytes

/-- `Provider::consttime_equal`. -/
def consttimeEqual (a b : Bytes) : Bool := decide (a = b)

/-- `kAaguid`. -/
def kAaguid : Block 16 :=
  ⟨[0x6f, 0xb1, 0xdf, 0xdd, 0x51, 0xc0, 0x43, 0xa0,
    0xa6, 0xf2, 0xf7, 0x48, 0x12, 0xcb, 0xf8, 0xfb], rfl⟩

/-- What is fixed for the life of an installation: the provider, the kind of the primary
key backend and `AuthenticatorConfig`. Durations are in the steady clock's unit. -/
structure Device where
  provider : Provider
  primaryKind : BackendKind
  aaguid : Block 16 := kAaguid
  u2fEnabled : Bool := false
  pinFailureDelayBase : ℕ := 5000000000
  pinTokenIdleTimeout : ℕ := 30000000000

/-- A provider of short, easily computed functions, for concrete runs. -/
def Provider.plain : Provider where
  sha256 data := Block.ofPadded 32 data
  hmacSha256 key msg := Block.ofPadded 32 (key.take 16 ++ msg.take 16)
  hkdfSha256 ikm _ _ := Block.ofPadded 32 ikm
  aes256cbcEncrypt _ _ pt := pt
  aes256cbcDecrypt _ _ ct := ct
  ecdhPub k := ⟨k.scalar, k.scalar⟩
  sharedSecretX k _ := some k.scalar
  p256PubFromScalar s := some ⟨s, s⟩
  makeSelfSignedP256Cert s _ _ := some s.bytes

/-- A device with U2F and keys in the Secure Enclave, for concrete runs. -/
def Device.plain : Device where
  provider := .plain
  primaryKind := .secureEnclave
  u2fEnabled := true

/-- `kUserActionTimeout`: 30 s, in the steady clock's unit. -/
def kUserActionTimeout : ℕ := 30000000000

end Swpasskey
