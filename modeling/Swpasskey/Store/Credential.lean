import Swpasskey.Cbor
import Swpasskey.Crypto

/-!
# The credential store's data

`store::Credential` and the in-memory state of `CredentialStore`, with its lookups and the
plaintext `serialize_locked` hands to the persister. The store's mutators are in
`Swpasskey/Store/Mutators.lean`.
-/

namespace Swpasskey

/-- `store::Credential`. -/
structure Credential where
  rpId : Bytes
  rpIdHash : Block 32
  rpName : Bytes := []
  userId : Bytes := []
  userName : Bytes := []
  userDisplay : Bytes := []
  credId : Block 32
  backend : BackendKind := .software
  /-- Empty for software. -/
  handle : Bytes := []
  /-- Software scalar only; empty for hardware. -/
  priv : Bytes := []
  pub : P256PublicKey
  signCount : UInt32 := 1
  createdUnix : UInt64 := 0
  lastUsedUnix : UInt64 := 0
  /-- `wrap_secret` output. -/
  credRandom : Bytes := []
  /-- `false` for CTAP1/U2F registrations. -/
  rk : Bool := true
  deriving DecidableEq

/-- What the row's backend knows its key by: the argument of `load` and `destroy`. -/
def Credential.keyRef (c : Credential) : Bytes :=
  if c.backend = .software then c.priv else c.handle

/-- A row with a new counter and time of use. -/
def Credential.used (c : Credential) (newCount : UInt32) (nowUnix : UInt64) : Credential :=
  { c with signCount := newCount, lastUsedUnix := nowUnix }

/-- `store::PinState`. -/
structure PinState where
  /-- `LEFT(SHA-256(PIN), 16)`. -/
  hash : Option (Block 16) := none
  retries : UInt8 := 8
  deriving DecidableEq

/-- `store::TpmState`. -/
structure TpmState where
  present : Bool := false
  srkUniqueSeed : Block 32 := Block.replicate 32 0
  objectAuth : Block 32 := Block.replicate 32 0
  deriving DecidableEq

/-- `store::U2fAttestation`. -/
structure U2fAttestation where
  priv : Bytes
  certDer : Bytes
  deriving DecidableEq

/-- The in-memory state of `CredentialStore`. -/
structure Store where
  creds : List Credential := []
  pin : PinState := {}
  tpm : TpmState := {}
  u2f : Option U2fAttestation := none
  serial : Bytes := []
  installId : Block 16 := Block.replicate 16 0
  deriving DecidableEq

namespace Store

/-- `kMaxCredentials`. -/
def kMaxCredentials : ℕ := 100

/-! ### Lookups -/

/-- `find_by_rp`: the discoverable rows of an RP, in store order. -/
def findByRp (s : Store) (rpIdHash : Block 32) : List Credential :=
  s.creds.filter fun c => c.rk && c.rpIdHash == rpIdHash

/-- `find`: the first row of an RP with this id. -/
def find (s : Store) (rpIdHash : Block 32) (credId : Bytes) : Option Credential :=
  s.creds.find? fun c => c.rpIdHash == rpIdHash && c.credId.bytes == credId

/-- `find_by_id`: the first row with this id. -/
def findById (s : Store) (credId : Bytes) : Option Credential :=
  s.creds.find? fun c => c.credId.bytes == credId

/-- `remaining`: a `std::size_t` subtraction. -/
def remaining (s : Store) : ℕ := (kMaxCredentials + 2 ^ 64 - s.creds.length) % 2 ^ 64

/-- `validate`. -/
def validate (c : Credential) : Except Status Unit :=
  if c.rpId.isEmpty || c.rpId.length > 255 then .error .invalidParameter
  else if c.userId.length > 64 then .error .invalidParameter
  else if c.backend = .software then
    if !c.handle.isEmpty || c.priv.length ≠ 32 then .error .invalidParameter else .ok ()
  else if !c.priv.isEmpty || c.handle.isEmpty then .error .invalidParameter else .ok ()

/-! ### The plaintext -/

open Cbor

/-- `encode_credential`. -/
def encodeCredential (c : Credential) : Bytes :=
  encodeMap
    [(encodeTstr (ascii "rp_id"), encodeTstr c.rpId),
      (encodeTstr (ascii "rp_id_hash"), encodeBstr c.rpIdHash.bytes),
      (encodeTstr (ascii "rp_name"), encodeTstr c.rpName),
      (encodeTstr (ascii "user_id"), encodeBstr c.userId),
      (encodeTstr (ascii "user_name"), encodeTstr c.userName),
      (encodeTstr (ascii "user_display"), encodeTstr c.userDisplay),
      (encodeTstr (ascii "cred_id"), encodeBstr c.credId.bytes),
      (encodeTstr (ascii "backend"), encodeUint c.backend.code),
      (encodeTstr (ascii "handle"), encodeBstr c.handle),
      (encodeTstr (ascii "priv"), encodeBstr c.priv),
      (encodeTstr (ascii "pub_x"), encodeBstr c.pub.x.bytes),
      (encodeTstr (ascii "pub_y"), encodeBstr c.pub.y.bytes),
      (encodeTstr (ascii "sign_count"), encodeUint c.signCount.toUInt64),
      (encodeTstr (ascii "created"), encodeUint c.createdUnix),
      (encodeTstr (ascii "last_used"), encodeUint c.lastUsedUnix),
      (encodeTstr (ascii "cred_random"), encodeBstr c.credRandom),
      (encodeTstr (ascii "rk"), encodeBool c.rk)]

/-- The `pin` entry of the plaintext. -/
def encodePin (p : PinState) : Bytes :=
  encodeMap <|
    (match p.hash with
      | some h => [(encodeTstr (ascii "hash"), encodeBstr h.bytes)]
      | none => []) ++
    [(encodeTstr (ascii "retries"), encodeUint p.retries.toUInt64)]

/-- The `tpm` entry, written only when the seed is present. -/
def tpmEntry (t : TpmState) : List Entry :=
  if t.present then
    [(encodeTstr (ascii "tpm"), encodeMap
      [(encodeTstr (ascii "srk_unique_seed"), encodeBstr t.srkUniqueSeed.bytes),
        (encodeTstr (ascii "object_auth"), encodeBstr t.objectAuth.bytes)])]
  else []

/-- The `u2f_attest` entry, written only when there is an attestation key. -/
def u2fEntry : Option U2fAttestation → List Entry
  | some a =>
    [(encodeTstr (ascii "u2f_attest"), encodeMap
      [(encodeTstr (ascii "priv"), encodeBstr a.priv),
        (encodeTstr (ascii "cert_der"), encodeBstr a.certDer)])]
  | none => []

/-- `serialize_locked`: the plaintext of the whole store. -/
def serialize (s : Store) : Bytes :=
  encodeMap <|
    [(encodeTstr (ascii "aaguid"), encodeBstr kAaguid.bytes),
      (encodeTstr (ascii "install_id"), encodeBstr s.installId.bytes),
      (encodeTstr (ascii "serial"), encodeTstr s.serial),
      (encodeTstr (ascii "pin"), encodePin s.pin)] ++
    tpmEntry s.tpm ++ u2fEntry s.u2f ++
    [(encodeTstr (ascii "creds"),
      encodeArrayHeader s.creds.length ++ s.creds.flatMap encodeCredential)]

/-- The store as a new process reads it back: the TPM seeds are written only when
present. -/
def reopened (s : Store) : Store := { s with tpm := if s.tpm.present then s.tpm else {} }

end Store

end Swpasskey
