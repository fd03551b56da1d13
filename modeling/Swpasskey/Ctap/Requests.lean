import Swpasskey.Cbor
import Swpasskey.Crypto

/-!
# Request parsing

The parsers of `auth_data.cpp` and the request maps of makeCredential, getAssertion and
clientPIN, with their error statuses. A `for` loop over a map or an array is `Proc.loop`
over the number of entries the head declares, threading what has been read so far; a
repeated key overwrites, an unknown key is skipped.
-/

namespace Swpasskey

/-- `detail::PubKeyCredDescriptor`. -/
structure PubKeyCredDescriptor where
  type : Bytes := []
  id : Bytes := []
  deriving DecidableEq

/-- `detail::RpEntity`. -/
structure RpEntity where
  id : Bytes := []
  name : Bytes := []
  deriving DecidableEq

/-- `detail::UserEntity`. -/
structure UserEntity where
  id : Bytes := []
  name : Bytes := []
  displayName : Bytes := []
  deriving DecidableEq

/-- `detail::Options`. -/
structure Options where
  rk : Option Bool := none
  up : Option Bool := none
  uv : Option Bool := none
  deriving DecidableEq

/-- `detail::ExtensionsIn`. -/
structure ExtensionsIn where
  credProtect : Option UInt64 := none
  hmacCreateSecret : Bool := false
  hmacSecretPresent : Bool := false
  hmacKeyAgreement : Option P256PublicKey := none
  hmacSaltEnc : Bytes := []
  hmacSaltAuth : Bytes := []
  hmacPinProtocol : UInt64 := 1
  deriving DecidableEq

/-- `MakeCredentialRequest`, as `parse` returns it: the required members are there. -/
structure MakeCredentialRequest where
  clientDataHash : Block 32
  rp : RpEntity
  user : UserEntity
  hasEs256 : Bool
  excludeList : List PubKeyCredDescriptor
  ext : ExtensionsIn
  options : Options
  pinUvAuthParam : Option Bytes
  pinUvAuthProtocol : Option UInt64
  enterpriseAttestation : Bool
  deriving DecidableEq

/-- `GetAssertionRequest`, as `parse` returns it. -/
structure GetAssertionRequest where
  rpId : Bytes
  clientDataHash : Block 32
  allowList : Option (List PubKeyCredDescriptor)
  ext : ExtensionsIn
  options : Options
  pinUvAuthParam : Option Bytes
  pinUvAuthProtocol : Option UInt64
  deriving DecidableEq

/-- The members of a clientPIN request. -/
structure ClientPinRequest where
  protocol : Option UInt64 := none
  sub : Option UInt64 := none
  keyAgreement : Option P256PublicKey := none
  pinAuth : Option Bytes := none
  newPinEnc : Option Bytes := none
  pinHashEnc : Option Bytes := none
  permissions : Option UInt64 := none
  rpId : Option Bytes := none
  deriving DecidableEq

namespace Requests

open Proc Cbor Cbor.Reader

/-- `read_int_key`: an integer map key. -/
def readIntKey : Read ℤ := do
  let m ← peekMajor.orFail .invalidCbor
  require (m = 0 ∨ m = 1) .cborUnexpectedType
  integer

/-- A byte string of exactly `n` bytes. -/
def blockOf (n : ℕ) : Read (Block n) := do
  match Block.ofBytes? n (← bstr) with
  | some b => pure b
  | none => throw .invalidParameter

/-- `parse_descriptor`. -/
def parseDescriptor : Read PubKeyCredDescriptor := do
  let n ← map
  let d ← loop (fun (d : PubKeyCredDescriptor) => do
    let k ← tstr
    if k = ascii "type" then return { d with type := ← tstr }
    else if k = ascii "id" then return { d with id := ← bstr }
    else skip >>= fun _ => pure d) n {}
  require (!d.type.isEmpty && !d.id.isEmpty) .missingParameter
  return d

/-- `parse_descriptor_list`. -/
def parseDescriptorList : Read (List PubKeyCredDescriptor) := do
  let n ← array
  loop (fun out => do return out ++ [← parseDescriptor]) n []

/-- `parse_rp`. -/
def parseRp : Read RpEntity := do
  let n ← map
  let (rp, haveId) ← loop (fun (rp, haveId) => do
    let k ← tstr
    if k = ascii "id" then return ({ rp with id := ← tstr }, true)
    else if k = ascii "name" then return ({ rp with name := ← tstr }, haveId)
    else skip >>= fun _ => pure (rp, haveId)) n (({} : RpEntity), false)
  require haveId .missingParameter
  return rp

/-- `parse_user`. -/
def parseUser : Read UserEntity := do
  let n ← map
  let (u, haveId) ← loop (fun (u, haveId) => do
    let k ← tstr
    if k = ascii "id" then return ({ u with id := ← bstr }, true)
    else if k = ascii "name" then return ({ u with name := ← tstr }, haveId)
    else if k = ascii "displayName" then return ({ u with displayName := ← tstr }, haveId)
    else skip >>= fun _ => pure (u, haveId)) n (({} : UserEntity), false)
  require haveId .missingParameter
  return u

/-- `parse_options`: every value is a boolean, also under an unknown key. -/
def parseOptions : Read Options := do
  let n ← map
  loop (fun (o : Options) => do
    let k ← tstr
    let v ← boolean
    if k = ascii "rk" then return { o with rk := some v }
    else if k = ascii "up" then return { o with up := some v }
    else if k = ascii "uv" then return { o with uv := some v }
    else return o) n {}

/-- `parse_cose_p256`: an EC2 key on P-256; both coordinates are required. -/
def parseCoseP256 : Read P256PublicKey := do
  let n ← map
  let (x, y) ← loop (fun (x, y) => do
    let k ← readIntKey
    if k = -2 then return (some (← blockOf 32), y)
    else if k = -3 then return (x, some (← blockOf 32))
    else if k = 1 then
      require ((← integer) = 2) .invalidParameter
      return (x, y)
    else if k = -1 then
      require ((← integer) = 1) .invalidParameter
      return (x, y)
    else skip >>= fun _ => pure (x, y)) n ((none, none) : Option (Block 32) × Option (Block 32))
  match x, y with
  | some x, some y => return ⟨x, y⟩
  | _, _ => throw .missingParameter

/-- The members of a getAssertion `hmac-secret` input. -/
def parseHmacSecret (e : ExtensionsIn) : Read ExtensionsIn := do
  let n ← map
  loop (fun (e : ExtensionsIn) => do
    let k ← readIntKey
    if k = 1 then return { e with hmacKeyAgreement := some (← parseCoseP256) }
    else if k = 2 then return { e with hmacSaltEnc := ← bstr }
    else if k = 3 then return { e with hmacSaltAuth := ← bstr }
    else if k = 4 then return { e with hmacPinProtocol := ← uint }
    else skip >>= fun _ => pure e) n { e with hmacSecretPresent := true }

/-- `parse_extensions`. -/
def parseExtensions : Read ExtensionsIn := do
  let n ← map
  loop (fun (e : ExtensionsIn) => do
    let k ← tstr
    if k = ascii "credProtect" then return { e with credProtect := some (← uint) }
    else if k = ascii "hmac-secret" ∨ k = ascii "hmac-create-secret" then
      let m ← peekMajor
      if m = 7 then return { e with hmacCreateSecret := ← boolean }
      else if m = 5 then parseHmacSecret e
      else skip >>= fun _ => pure e
    else skip >>= fun _ => pure e) n {}

/-- One entry of pubKeyCredParams: its type and algorithm, both required. -/
def parsePubKeyCredParam : Read (Bytes × ℤ) := do
  let n ← map
  let (type, alg) ← loop (fun (type, alg) => do
    let k ← tstr
    if k = ascii "type" then return (← tstr, alg)
    else if k = ascii "alg" then return (type, some (← integer))
    else skip >>= fun _ => pure (type, alg)) n (([], none) : Bytes × Option ℤ)
  require (!type.isEmpty) .missingParameter
  match alg with
  | some alg => return (type, alg)
  | none => throw .missingParameter

/-- `parse_pub_key_cred_params_has_es256`. -/
def parsePubKeyCredParamsHasEs256 : Read Bool := do
  let n ← array
  loop (fun found => do
    let (type, alg) ← parsePubKeyCredParam
    return found || (type = ascii "public-key" && alg = -7)) n false

/-! ### makeCredential -/

/-- What the makeCredential loop has read so far. -/
structure MakeCredentialFields where
  clientDataHash : Option (Block 32) := none
  rp : Option RpEntity := none
  user : Option UserEntity := none
  hasEs256 : Option Bool := none
  excludeList : List PubKeyCredDescriptor := []
  ext : ExtensionsIn := {}
  options : Options := {}
  pinUvAuthParam : Option Bytes := none
  pinUvAuthProtocol : Option UInt64 := none
  enterpriseAttestation : Bool := false

/-- One entry of a makeCredential request. -/
def makeCredentialEntry (q : MakeCredentialFields) : Read MakeCredentialFields := do
  let k ← readIntKey
  if k = 0x01 then return { q with clientDataHash := some (← blockOf 32) }
  else if k = 0x02 then return { q with rp := some (← parseRp) }
  else if k = 0x03 then return { q with user := some (← parseUser) }
  else if k = 0x04 then return { q with hasEs256 := some (← parsePubKeyCredParamsHasEs256) }
  else if k = 0x05 then return { q with excludeList := ← parseDescriptorList }
  else if k = 0x06 then return { q with ext := ← parseExtensions }
  else if k = 0x07 then return { q with options := ← parseOptions }
  else if k = 0x08 then return { q with pinUvAuthParam := some (← bstr) }
  else if k = 0x09 then return { q with pinUvAuthProtocol := some (← uint) }
  else if k = 0x0A then boolean >>= fun _ => pure { q with enterpriseAttestation := true }
  else skip >>= fun _ => pure q

/-- `parse` of `make_credential.cpp`. -/
def parseMakeCredential : Read MakeCredentialRequest := do
  let n ← map
  let q ← loop makeCredentialEntry n {}
  match q.clientDataHash, q.rp, q.user, q.hasEs256 with
  | some clientDataHash, some rp, some user, some hasEs256 =>
    return {
      clientDataHash, rp, user, hasEs256
      excludeList := q.excludeList
      ext := q.ext
      options := q.options
      pinUvAuthParam := q.pinUvAuthParam
      pinUvAuthProtocol := q.pinUvAuthProtocol
      enterpriseAttestation := q.enterpriseAttestation }
  | _, _, _, _ => throw .missingParameter

/-! ### getAssertion -/

/-- What the getAssertion loop has read so far. -/
structure GetAssertionFields where
  rpId : Option Bytes := none
  clientDataHash : Option (Block 32) := none
  allowList : Option (List PubKeyCredDescriptor) := none
  ext : ExtensionsIn := {}
  options : Options := {}
  pinUvAuthParam : Option Bytes := none
  pinUvAuthProtocol : Option UInt64 := none

/-- One entry of a getAssertion request. -/
def getAssertionEntry (q : GetAssertionFields) : Read GetAssertionFields := do
  let k ← readIntKey
  if k = 0x01 then return { q with rpId := some (← tstr) }
  else if k = 0x02 then return { q with clientDataHash := some (← blockOf 32) }
  else if k = 0x03 then return { q with allowList := some (← parseDescriptorList) }
  else if k = 0x04 then return { q with ext := ← parseExtensions }
  else if k = 0x05 then return { q with options := ← parseOptions }
  else if k = 0x06 then return { q with pinUvAuthParam := some (← bstr) }
  else if k = 0x07 then return { q with pinUvAuthProtocol := some (← uint) }
  else skip >>= fun _ => pure q

/-- `parse` of `get_assertion.cpp`. -/
def parseGetAssertion : Read GetAssertionRequest := do
  let n ← map
  let q ← loop getAssertionEntry n {}
  match q.rpId, q.clientDataHash with
  | some rpId, some clientDataHash =>
    return {
      rpId, clientDataHash
      allowList := q.allowList
      ext := q.ext
      options := q.options
      pinUvAuthParam := q.pinUvAuthParam
      pinUvAuthProtocol := q.pinUvAuthProtocol }
  | _, _ => throw .missingParameter

/-! ### clientPIN -/

/-- One entry of a clientPIN request. -/
def clientPinEntry (q : ClientPinRequest) : Read ClientPinRequest := do
  let k ← readIntKey
  if k = 0x01 then return { q with protocol := some (← uint) }
  else if k = 0x02 then return { q with sub := some (← uint) }
  else if k = 0x03 then return { q with keyAgreement := some (← parseCoseP256) }
  else if k = 0x04 then return { q with pinAuth := some (← bstr) }
  else if k = 0x05 then return { q with newPinEnc := some (← bstr) }
  else if k = 0x06 then return { q with pinHashEnc := some (← bstr) }
  else if k = 0x09 then return { q with permissions := some (← uint) }
  else if k = 0x0A then return { q with rpId := some (← tstr) }
  else skip >>= fun _ => pure q

/-- The loop at the head of `PinManager::handle`. -/
def parseClientPin : Read ClientPinRequest := do
  let n ← map
  loop clientPinEntry n {}

end Requests

end Swpasskey
