import Swpasskey.World

/-!
# Responses on the wire

The encoders of `auth_data.cpp` and `get_info.cpp`, and the bytes of every response. The
commands return structured replies; `Reply.encode` and `U2fReply.encode` are what leaves
the authenticator.
-/

namespace Swpasskey

open Cbor

/-! ### Flags -/

def kFlagUp : UInt8 := 0x01
def kFlagUv : UInt8 := 0x04
def kFlagAt : UInt8 := 0x40
def kFlagEd : UInt8 := 0x80

/-- Whether an extension flag is set does not matter to the other flags. -/
theorem or_kFlagEd_and (flags : UInt8) (b : Bool) {f : UInt8} (hf : kFlagEd &&& f = 0) :
    (flags ||| (if b then 0 else kFlagEd)) &&& f = flags &&& f := by
  have hdistrib : ∀ x y z : UInt8, (x ||| y) &&& z = (x &&& z) ||| (y &&& z) := fun x y z =>
    UInt8.toBitVec_inj.mp (BitVec.eq_of_getElem_eq fun i hi => by simp [Bool.and_or_distrib_right])
  rw [hdistrib]
  cases b
  · rw [if_neg Bool.false_ne_true, hf, UInt8.or_zero]
  · rw [if_pos rfl, UInt8.zero_and, UInt8.or_zero]

namespace AuthData

/-- The response claims user presence. -/
def up (a : AuthData) : Prop := a.flags &&& kFlagUp ≠ 0

/-- The response claims user verification. -/
def uv (a : AuthData) : Prop := a.flags &&& kFlagUv ≠ 0

instance (a : AuthData) : Decidable a.up := inferInstanceAs (Decidable (_ ≠ _))

instance (a : AuthData) : Decidable a.uv := inferInstanceAs (Decidable (_ ≠ _))

end AuthData

/-! ### Entities -/

/-- A COSE_Key on P-256 with the given algorithm. -/
def encodeCoseKey (alg : ℤ) (pub : P256PublicKey) : Bytes :=
  encodeMap
    [(encodeInt 1, encodeInt 2), (encodeInt 3, encodeInt alg), (encodeInt (-1), encodeInt 1),
      (encodeInt (-2), encodeBstr pub.x.bytes), (encodeInt (-3), encodeBstr pub.y.bytes)]

/-- `encode_cose_p256`: an ES256 key. -/
def encodeCoseP256 (pub : P256PublicKey) : Bytes := encodeCoseKey (-7) pub

/-- `encode_cose_ecdh`: a key-agreement key. -/
def encodeCoseEcdh (pub : P256PublicKey) : Bytes := encodeCoseKey (-25) pub

/-- `encode_descriptor`. -/
def encodeDescriptor (credId : Bytes) : Bytes :=
  encodeMap
    [(encodeTstr (ascii "id"), encodeBstr credId),
      (encodeTstr (ascii "type"), encodeTstr (ascii "public-key"))]

/-- `encode_user`: the names only when `full`. -/
def encodeUser (u : UserEntity) (full : Bool) : Bytes :=
  encodeMap <|
    [(encodeTstr (ascii "id"), encodeBstr u.id)] ++
    (if full && !u.name.isEmpty then [(encodeTstr (ascii "name"), encodeTstr u.name)] else []) ++
    (if full && !u.displayName.isEmpty then
      [(encodeTstr (ascii "displayName"), encodeTstr u.displayName)] else [])

/-- `build_attested_credential_data`. -/
def buildAttestedCredentialData (aaguid : Block 16) (credId : Bytes) (pub : P256PublicKey) :
    Bytes :=
  aaguid.bytes ++
    [(UInt64.ofNat credId.length >>> 8).toUInt8, (UInt64.ofNat credId.length).toUInt8] ++
    credId ++ encodeCoseP256 pub

/-- `build_auth_data`. -/
def AuthData.bytes (a : AuthData) : Bytes :=
  a.rpIdHash.bytes ++ [a.flags] ++ be32 a.signCount ++
    (match a.attested with
      | some (aaguid, credId, pub) => buildAttestedCredentialData aaguid credId.bytes pub
      | none => []) ++
    a.extensions

/-! ### getInfo -/

/-- `GetInfoSnapshot`, as far as `Authenticator::get_info` sets it; the other members keep
the defaults written out in `encodeGetInfo`. -/
structure GetInfoSnapshot where
  versions : List Bytes
  extensions : List Bytes
  aaguid : Block 16
  clientPin : Bool
  pinUvAuthToken : Bool
  pinProtocols : List UInt64
  remainingDiscoverable : UInt32

/-- `encode_tstr_array`. -/
def encodeTstrArray (v : List Bytes) : Bytes := encodeArrayHeader v.length ++ v.flatMap encodeTstr

/-- `encode_get_info`. -/
def encodeGetInfo (s : GetInfoSnapshot) : Bytes :=
  encodeMap <|
    [(encodeUint 1, encodeTstrArray s.versions)] ++
    (if s.extensions.isEmpty then [] else [(encodeUint 2, encodeTstrArray s.extensions)]) ++
    [(encodeUint 3, encodeBstr s.aaguid.bytes),
      (encodeUint 4, encodeMap
        [(encodeTstr (ascii "alwaysUv"), encodeBool false),
          (encodeTstr (ascii "clientPin"), encodeBool s.clientPin),
          (encodeTstr (ascii "credMgmt"), encodeBool false),
          (encodeTstr (ascii "makeCredUvNotRqd"), encodeBool false),
          (encodeTstr (ascii "pinUvAuthToken"), encodeBool s.pinUvAuthToken),
          (encodeTstr (ascii "plat"), encodeBool false),
          (encodeTstr (ascii "rk"), encodeBool true),
          (encodeTstr (ascii "up"), encodeBool true)]),
      (encodeUint 5, encodeUint 1200)] ++
    (if s.pinProtocols.isEmpty then []
      else [(encodeUint 6,
        encodeArrayHeader s.pinProtocols.length ++ s.pinProtocols.flatMap encodeUint)]) ++
    [(encodeUint 7, encodeUint 8),
      (encodeUint 8, encodeUint 32),
      (encodeUint 9, encodeTstrArray [ascii "usb"]),
      (encodeUint 10, encodeArrayHeader 1 ++ encodeMap
        [(encodeTstr (ascii "alg"), encodeInt (-7)),
          (encodeTstr (ascii "type"), encodeTstr (ascii "public-key"))]),
      (encodeUint 14, encodeUint 1),
      (encodeUint 20, encodeUint s.remainingDiscoverable.toUInt64)]

/-! ### Whole responses -/

/-- The body of a successful CBOR response. -/
def Reply.encode : Reply → Bytes
  | empty => []
  | info body => body
  | retries n => encodeMap [(encodeUint 3, encodeUint n.toUInt64)]
  | keyAgreement pub => encodeMap [(encodeUint 1, encodeCoseEcdh pub)]
  | pinToken enc => encodeMap [(encodeUint 2, encodeBstr enc)]
  | attestation authData sig =>
    encodeMap
      [(encodeUint 1, encodeTstr (ascii "packed")),
        (encodeUint 2, encodeBstr authData.bytes),
        (encodeUint 3, encodeMap
          [(encodeTstr (ascii "alg"), encodeInt (-7)), (encodeTstr (ascii "sig"), encodeBstr sig)])]
  | assertion credId authData sig user number =>
    encodeMap <|
      [(encodeUint 1, encodeDescriptor credId.bytes),
        (encodeUint 2, encodeBstr authData.bytes),
        (encodeUint 3, encodeBstr sig)] ++
      (if user.id.isEmpty then []
        else [(encodeUint 4, encodeUser user (authData.flags &&& kFlagUv ≠ 0))]) ++
      (match number with
        | some n => if n > 1 then [(encodeUint 5, encodeUint (UInt64.ofNat n))] else []
        | none => [])

/-- `uncompressed`: the X9.62 point. -/
def uncompressed (pub : P256PublicKey) : Bytes := [0x04] ++ pub.x.bytes ++ pub.y.bytes

/-- A response APDU: data and status word. -/
def respond (data : Bytes) (status : UInt16) : Bytes :=
  data ++ [(status >>> 8).toUInt8, (status &&& 0xFF).toUInt8]

/-- A successful U2F response. -/
def U2fReply.encode : U2fReply → Bytes
  | version => respond (ascii "U2F_V2") 0x9000
  | registered pub keyHandle certDer sig =>
    respond ([0x05] ++ uncompressed pub ++ [UInt8.ofNat keyHandle.bytes.length] ++
      keyHandle.bytes ++ certDer ++ sig) 0x9000
  | signed presence count sig => respond ([presence] ++ be32 count ++ sig) 0x9000

/-- The payload of the response to a HID command, as `worker_main` builds it. The calls of the
control socket and a process that died send none. -/
def payload : Outcome Refusal Answer → Option Bytes
  | .ok (.cbor r) => some (0x00 :: r.encode)
  | .ok (.u2f r) => some r.encode
  | .ok .done => none
  | .err (.status s) => some [s.code]
  | .err (.sw w) => some (respond [] w)
  | .died => none

end Swpasskey
