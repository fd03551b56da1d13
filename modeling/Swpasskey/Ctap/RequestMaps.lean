import Swpasskey.Cbor.Record
import Swpasskey.Ctap.Requests

/-!
# The maps of the requests

Every map of a request is read by one loop with one branch for each known key. Here these
branches are listed once more, as tables, and each parser is the loop over its table
(`parseRp_eq` and the like), so that what is proved of a table holds of the parser.

Two of the loops are not of that form as they stand. `parse_options` reads the value before it
looks at the key. And the members of `hmac-secret` go into the record of all extensions: they
are read into a record of their own (`HmacSecretInput`) first, and merged into the other at the end.
-/

namespace Swpasskey.Requests

open Proc Cbor Cbor.Reader

/-- A look at the major type fails with `InvalidCbor` only. -/
theorem peekMajor_orFail : peekMajor.orFail .invalidCbor = peekMajor := by
  funext r
  change mapErr _ peekMajor r = peekMajor r
  unfold mapErr peekMajor
  by_cases h : r.off ≥ r.input.length
  · rw [if_pos h]
  · rw [if_neg h]

/-! ### Entities -/

def descriptorFields : List (Field Bytes PubKeyCredDescriptor) :=
  [{ key := ascii "type", value := tstr, set := fun v d => { d with type := v } },
    { key := ascii "id", value := bstr, set := fun v d => { d with id := v } }]

/-- Both members are there. -/
def descriptorOf (d : PubKeyCredDescriptor) : Read PubKeyCredDescriptor := do
  require (!d.type.isEmpty && !d.id.isEmpty) .missingParameter
  return d

theorem parseDescriptor_eq :
    parseDescriptor = record tstr descriptorFields skip {} >>= descriptorOf := by
  rw [record, bind_assoc]
  rfl

/-- The entity, and whether it has an id. -/
def rpFields : List (Field Bytes (RpEntity × Bool)) :=
  [{ key := ascii "id", value := tstr, set := fun v q => ({ q.1 with id := v }, true) },
    { key := ascii "name", value := tstr, set := fun v q => ({ q.1 with name := v }, q.2) }]

def withId {α : Type} (q : α × Bool) : Read α := do
  require q.2 .missingParameter
  return q.1

theorem parseRp_eq : parseRp = record tstr rpFields skip ({}, false) >>= withId := by
  rw [record, bind_assoc]
  rfl

def userFields : List (Field Bytes (UserEntity × Bool)) :=
  [{ key := ascii "id", value := bstr, set := fun v q => ({ q.1 with id := v }, true) },
    { key := ascii "name", value := tstr, set := fun v q => ({ q.1 with name := v }, q.2) },
    { key := ascii "displayName", value := tstr,
      set := fun v q => ({ q.1 with displayName := v }, q.2) }]

theorem parseUser_eq : parseUser = record tstr userFields skip ({}, false) >>= withId := by
  rw [record, bind_assoc]
  rfl

def optionsFields : List (Field Bytes Options) :=
  [{ key := ascii "rk", value := boolean, set := fun v o => { o with rk := some v } },
    { key := ascii "up", value := boolean, set := fun v o => { o with up := some v } },
    { key := ascii "uv", value := boolean, set := fun v o => { o with uv := some v } }]

/-- The value of an unknown option. -/
def anyBoolean : Read Unit := boolean >>= fun _ => pure ()

theorem parseOptions_eq : parseOptions = record tstr optionsFields anyBoolean {} := by
  have hentry : (fun o : Options => do
      let k ← tstr
      let v ← boolean
      if k = ascii "rk" then return { o with rk := some v }
      else if k = ascii "up" then return { o with up := some v }
      else if k = ascii "uv" then return { o with uv := some v }
      else return o) = fun o => tstr >>= fun k => readField anyBoolean optionsFields k o := by
    refine funext fun o => congrArg (tstr >>= ·) (funext fun k => ?_)
    simp only [optionsFields, readField, anyBoolean, bind_assoc, pure_bind]
    split_ifs <;> rfl
  rw [parseOptions, hentry]
  rfl

/-! ### Keys and algorithms -/

def coseFields : List (Field ℤ (Option (Block 32) × Option (Block 32))) :=
  [{ key := -2, value := blockOf 32, set := fun v q => (some v, q.2) },
    { key := -3, value := blockOf 32, set := fun v q => (q.1, some v) },
    { key := 1, value := integer >>= fun v => require (v = 2) .invalidParameter,
      set := fun _ q => q },
    { key := -1, value := integer >>= fun v => require (v = 1) .invalidParameter,
      set := fun _ q => q }]

/-- Both coordinates are there. -/
def coseOf (q : Option (Block 32) × Option (Block 32)) : Read P256PublicKey :=
  match q.1, q.2 with
  | some x, some y => pure ⟨x, y⟩
  | _, _ => throw .missingParameter

theorem parseCoseP256_eq :
    parseCoseP256 = record readIntKey coseFields skip (none, none) >>= coseOf := by
  have hentry : (fun (q : Option (Block 32) × Option (Block 32)) => do
      let k ← readIntKey
      if k = -2 then return (some (← blockOf 32), q.2)
      else if k = -3 then return (q.1, some (← blockOf 32))
      else if k = 1 then
        require ((← integer) = 2) .invalidParameter
        return (q.1, q.2)
      else if k = -1 then
        require ((← integer) = 1) .invalidParameter
        return (q.1, q.2)
      else skip >>= fun _ => pure (q.1, q.2)) =
        fun q => readIntKey >>= fun k => readField skip coseFields k q := by
    refine funext fun q => congrArg (readIntKey >>= ·) (funext fun k => ?_)
    simp only [coseFields, readField, bind_assoc]
  rw [record, bind_assoc, ← hentry]
  rfl

def paramFields : List (Field Bytes (Bytes × Option ℤ)) :=
  [{ key := ascii "type", value := tstr, set := fun v q => (v, q.2) },
    { key := ascii "alg", value := integer, set := fun v q => (q.1, some v) }]

/-- Both members are there. -/
def paramOf (q : Bytes × Option ℤ) : Read (Bytes × ℤ) := do
  require (!q.1.isEmpty) .missingParameter
  match q.2 with
  | some alg => return (q.1, alg)
  | none => throw .missingParameter

theorem parsePubKeyCredParam_eq :
    parsePubKeyCredParam = record tstr paramFields skip ([], none) >>= paramOf := by
  rw [record, bind_assoc]
  rfl

/-! ### Extensions -/

/-- The members of an `hmac-secret` input, as far as they are there. -/
structure HmacSecretInput where
  keyAgreement : Option P256PublicKey := none
  saltEnc : Option Bytes := none
  saltAuth : Option Bytes := none
  pinProtocol : Option UInt64 := none

/-- The extensions `e` with this `hmac-secret` input. -/
def HmacSecretInput.merge (h : HmacSecretInput) (e : ExtensionsIn) : ExtensionsIn :=
  { e with
    hmacSecretPresent := true
    hmacKeyAgreement := h.keyAgreement.or e.hmacKeyAgreement
    hmacSaltEnc := h.saltEnc.getD e.hmacSaltEnc
    hmacSaltAuth := h.saltAuth.getD e.hmacSaltAuth
    hmacPinProtocol := h.pinProtocol.getD e.hmacPinProtocol }

def hmacSecretFields : List (Field ℤ HmacSecretInput) :=
  [{ key := 1, value := parseCoseP256, set := fun v h => { h with keyAgreement := some v } },
    { key := 2, value := bstr, set := fun v h => { h with saltEnc := some v } },
    { key := 3, value := bstr, set := fun v h => { h with saltAuth := some v } },
    { key := 4, value := uint, set := fun v h => { h with pinProtocol := some v } }]

theorem parseHmacSecret_eq (e : ExtensionsIn) : parseHmacSecret e =
    record readIntKey hmacSecretFields skip {} >>= fun h => pure (h.merge e) := by
  have hentry : ∀ h : HmacSecretInput, (do
      let k ← readIntKey
      if k = 1 then return { h.merge e with hmacKeyAgreement := some (← parseCoseP256) }
      else if k = 2 then return { h.merge e with hmacSaltEnc := ← bstr }
      else if k = 3 then return { h.merge e with hmacSaltAuth := ← bstr }
      else if k = 4 then return { h.merge e with hmacPinProtocol := ← uint }
      else skip >>= fun _ => pure (h.merge e)) =
        (readIntKey >>= fun k => readField skip hmacSecretFields k h) >>=
          fun h => pure (h.merge e) := by
    intro h
    rw [bind_assoc]
    refine congrArg (readIntKey >>= ·) (funext fun k => ?_)
    simp only [hmacSecretFields, readField]
    split_ifs <;> simp only [bind_assoc, pure_bind] <;> rfl
  rw [record, bind_assoc]
  exact congrArg (map >>= ·) (funext fun n => loop_apply (HmacSecretInput.merge · e) hentry n {})

/-- What stands under `hmac-secret`: the flag of a makeCredential request, the input of a
getAssertion request, or anything else. -/
inductive HmacExtension
  | create (v : Bool)
  | secret (h : HmacSecretInput)
  | other

def HmacExtension.read : Read HmacExtension := do
  let m ← peekMajor
  if m = 7 then return .create (← boolean)
  else if m = 5 then return .secret (← record readIntKey hmacSecretFields skip {})
  else skip >>= fun _ => pure .other

def HmacExtension.set (v : HmacExtension) (e : ExtensionsIn) : ExtensionsIn :=
  match v with
  | create v => { e with hmacCreateSecret := v }
  | secret h => h.merge e
  | other => e

def extensionsFields : List (Field Bytes ExtensionsIn) :=
  [{ key := ascii "credProtect", value := uint,
      set := fun v e => { e with credProtect := some v } },
    { key := ascii "hmac-secret", value := HmacExtension.read, set := HmacExtension.set },
    { key := ascii "hmac-create-secret", value := HmacExtension.read, set := HmacExtension.set }]

theorem parseExtensions_eq : parseExtensions = record tstr extensionsFields skip {} := by
  have hhmac : ∀ e : ExtensionsIn, (do
      let m ← peekMajor
      if m = 7 then return { e with hmacCreateSecret := ← boolean }
      else if m = 5 then parseHmacSecret e
      else skip >>= fun _ => pure e) = HmacExtension.read >>= fun v => pure (v.set e) := by
    intro e
    rw [HmacExtension.read, bind_assoc]
    refine congrArg (peekMajor >>= ·) (funext fun m => ?_)
    rw [parseHmacSecret_eq]
    split_ifs <;> simp only [bind_assoc, pure_bind] <;> rfl
  have hentry : (fun e : ExtensionsIn => do
      let k ← tstr
      if k = ascii "credProtect" then return { e with credProtect := some (← uint) }
      else if k = ascii "hmac-secret" ∨ k = ascii "hmac-create-secret" then
        let m ← peekMajor
        if m = 7 then return { e with hmacCreateSecret := ← boolean }
        else if m = 5 then parseHmacSecret e
        else skip >>= fun _ => pure e
      else skip >>= fun _ => pure e) =
        fun e => tstr >>= fun k => readField skip extensionsFields k e := by
    refine funext fun e => congrArg (tstr >>= ·) (funext fun k => ?_)
    simp only [extensionsFields, readField, hhmac]
    split_ifs with h₁ h₂ h₃ h₄ h₅ <;> first | rfl | grind
  rw [parseExtensions, hentry]
  rfl

/-! ### Requests -/

def makeCredentialFields : List (Field ℤ MakeCredentialFields) :=
  [{ key := 0x01, value := blockOf 32, set := fun v q => { q with clientDataHash := some v } },
    { key := 0x02, value := parseRp, set := fun v q => { q with rp := some v } },
    { key := 0x03, value := parseUser, set := fun v q => { q with user := some v } },
    { key := 0x04, value := parsePubKeyCredParamsHasEs256,
      set := fun v q => { q with hasEs256 := some v } },
    { key := 0x05, value := parseDescriptorList, set := fun v q => { q with excludeList := v } },
    { key := 0x06, value := parseExtensions, set := fun v q => { q with ext := v } },
    { key := 0x07, value := parseOptions, set := fun v q => { q with options := v } },
    { key := 0x08, value := bstr, set := fun v q => { q with pinUvAuthParam := some v } },
    { key := 0x09, value := uint, set := fun v q => { q with pinUvAuthProtocol := some v } },
    { key := 0x0A, value := boolean, set := fun _ q => { q with enterpriseAttestation := true } }]

/-- The required members are there. -/
def makeCredentialOf (q : MakeCredentialFields) : Read MakeCredentialRequest :=
  match q.clientDataHash, q.rp, q.user, q.hasEs256 with
  | some clientDataHash, some rp, some user, some hasEs256 =>
    pure {
      clientDataHash, rp, user, hasEs256
      excludeList := q.excludeList
      ext := q.ext
      options := q.options
      pinUvAuthParam := q.pinUvAuthParam
      pinUvAuthProtocol := q.pinUvAuthProtocol
      enterpriseAttestation := q.enterpriseAttestation }
  | _, _, _, _ => throw .missingParameter

theorem parseMakeCredential_eq : parseMakeCredential =
    record readIntKey makeCredentialFields skip {} >>= makeCredentialOf := by
  rw [record, bind_assoc]
  rfl

def getAssertionFields : List (Field ℤ GetAssertionFields) :=
  [{ key := 0x01, value := tstr, set := fun v q => { q with rpId := some v } },
    { key := 0x02, value := blockOf 32, set := fun v q => { q with clientDataHash := some v } },
    { key := 0x03, value := parseDescriptorList, set := fun v q => { q with allowList := some v } },
    { key := 0x04, value := parseExtensions, set := fun v q => { q with ext := v } },
    { key := 0x05, value := parseOptions, set := fun v q => { q with options := v } },
    { key := 0x06, value := bstr, set := fun v q => { q with pinUvAuthParam := some v } },
    { key := 0x07, value := uint, set := fun v q => { q with pinUvAuthProtocol := some v } }]

/-- The required members are there. -/
def getAssertionOf (q : GetAssertionFields) : Read GetAssertionRequest :=
  match q.rpId, q.clientDataHash with
  | some rpId, some clientDataHash =>
    pure {
      rpId, clientDataHash
      allowList := q.allowList
      ext := q.ext
      options := q.options
      pinUvAuthParam := q.pinUvAuthParam
      pinUvAuthProtocol := q.pinUvAuthProtocol }
  | _, _ => throw .missingParameter

theorem parseGetAssertion_eq : parseGetAssertion =
    record readIntKey getAssertionFields skip {} >>= getAssertionOf := by
  rw [record, bind_assoc]
  rfl

def clientPinFields : List (Field ℤ ClientPinRequest) :=
  [{ key := 0x01, value := uint, set := fun v q => { q with protocol := some v } },
    { key := 0x02, value := uint, set := fun v q => { q with sub := some v } },
    { key := 0x03, value := parseCoseP256, set := fun v q => { q with keyAgreement := some v } },
    { key := 0x04, value := bstr, set := fun v q => { q with pinAuth := some v } },
    { key := 0x05, value := bstr, set := fun v q => { q with newPinEnc := some v } },
    { key := 0x06, value := bstr, set := fun v q => { q with pinHashEnc := some v } },
    { key := 0x09, value := uint, set := fun v q => { q with permissions := some v } },
    { key := 0x0A, value := tstr, set := fun v q => { q with rpId := some v } }]

theorem parseClientPin_eq : parseClientPin = record readIntKey clientPinFields skip {} := rfl

end Swpasskey.Requests
