import Mathlib.Data.Stream.Defs
import Swpasskey.Crypto.LowS
import Swpasskey.Crypto.TpmHandle
import Swpasskey.Lib.Proc

/-!
# The TPM backend

`Tpm2KeyBackend`: a primary key for the life of the process, and a transient object for each
signature and each secret that is unwrapped. The TPM and its software stack are outside: a call is a
`Request`, which is answered in any way, and what happens is kept in its order. Calls that only free
memory, and what is logged, are left out.
-/

namespace Swpasskey

open Proc

namespace Tpm2

/-! ### What is said to the TPM -/

/-- `ESYS_TR` of an object. `ESYS_TR_NONE` is no value of this type. -/
abbrev EsysTr : Type := ℕ

/-- `TPMA_OBJECT`. -/
inductive Attribute
  | restricted | decrypt | signEncrypt | fixedTpm | fixedParent | sensitiveDataOrigin
  | userWithAuth | noDa
  deriving DecidableEq

/-- The parameters of a `publicArea`: an ECC key on P-256, as a parent (AES-128 in CFB mode) or for
ECDSA with SHA-256, or a keyed hash without a scheme. -/
inductive Parameters
  | eccParent | ecdsaSha256 | keyedHash
  deriving DecidableEq

/-- `TPM2B_PUBLIC` of a template. -/
structure Template where
  parameters : Parameters
  attributes : List Attribute
  /-- `unique.ecc.x`; `unique` is empty otherwise. -/
  unique : Bytes
  deriving DecidableEq

/-- `TPM2B_PUBLIC` of an object, as far as the backend looks into it. -/
structure Public where
  /-- `type` is `TPM2_ALG_ECC`. -/
  isEcc : Bool
  x : Bytes
  y : Bytes
  deriving DecidableEq

/-- `TPMT_SIGNATURE`. -/
structure Signature where
  /-- `sigAlg` is `TPM2_ALG_ECDSA`. -/
  isEcdsa : Bool
  r : Bytes
  s : Bytes
  deriving DecidableEq

/-- `Tpm2Params`. -/
structure Tpm2Params where
  srkUniqueSeed : Block 32
  objectAuth : Block 32
  deriving DecidableEq

/-- `OPENSSL_cleanse` of the parameters. -/
def Tpm2Params.zero : Tpm2Params := ⟨Block.replicate 32 0, Block.replicate 32 0⟩

/-- A call of the TPM software stack. A parent is what `primary_` is. -/
inductive Request
  | tctiInitialize (tcti : Bytes)
  | esysInitialize
  | startup
  | createPrimary (template : Template)
  | create (parent : Option EsysTr) (auth : Block 32) (data : Bytes) (template : Template)
  | load (parent : Option EsysTr) (priv : Bytes) (pub : Public)
  | setAuth (object : EsysTr) (auth : Block 32)
  | unseal (object : EsysTr)
  | sign (object : EsysTr) (digest : Block 32)
  | flushContext (object : EsysTr)
  | esysFinalize
  | tctiFinalize
  deriving DecidableEq

/-- What is answered to a request. An answer that does not fit the request is a failure, too. -/
inductive Reply
  | failed
  | done
  | object (o : EsysTr)
  | blobs (pub : Public) (priv : Bytes)
  | data (d : Bytes)
  | signature (s : Signature)
  deriving DecidableEq

/-- What happens at the border of the backend. -/
inductive Event
  | asked (request : Request) (reply : Reply)
  /-- The store gives its parameters. -/
  | given (params : Tpm2Params)
  deriving DecidableEq

/-- The parts of the stack that compute without the TPM: marshalling, and the size of the buffer
of `TPM2B_SENSITIVE_DATA`. -/
structure Mu where
  marshalPublic : Public → Option Bytes
  marshalPrivate : Bytes → Option Bytes
  unmarshalPublic : Bytes → Option Public
  unmarshalPrivate : Bytes → Option Bytes
  maxSensitiveData : ℕ

/-! ### Templates -/

/-- `kPrimaryUniqueInfo`. -/
def kPrimaryUniqueInfo : Bytes := ascii "swpasskey-ecc-primary-unique"

/-- `primary_template`. -/
def primaryTemplate (P : Provider) (seed : Block 32) : Template where
  parameters := .eccParent
  attributes := [.restricted, .decrypt, .fixedTpm, .fixedParent, .sensitiveDataOrigin,
    .userWithAuth, .noDa]
  unique := (P.hkdfSha256 seed.bytes (List.replicate 32 0) kPrimaryUniqueInfo).bytes

/-- `signing_child_template`. -/
def signingChildTemplate : Template where
  parameters := .ecdsaSha256
  attributes := [.signEncrypt, .fixedTpm, .fixedParent, .sensitiveDataOrigin, .userWithAuth, .noDa]
  unique := []

/-- `seal_template`. -/
def sealTemplate : Template where
  parameters := .keyedHash
  attributes := [.fixedTpm, .fixedParent, .userWithAuth, .noDa]
  unique := []

/-! ### The backend and its outside -/

/-- The members of `Tpm2KeyBackend`. -/
structure Tpm2KeyBackend where
  /-- `tcti_` is not null. -/
  tcti : Bool := false
  /-- `esys_` is not null. -/
  esys : Bool := false
  primary : Option EsysTr := none
  params : Tpm2Params := .zero
  tctiName : Bytes := []
  /-- `params_provider_` is set. -/
  hasProvider : Bool := false

/-- A backend, with what the outside will answer and what has happened. -/
structure Setup where
  backend : Tpm2KeyBackend
  answers : Stream' (Request → Reply)
  /-- `params_provider_`. -/
  params : Stream' (Except Status Tpm2Params)
  /-- Every call of `Provider` that can fail for want of memory. -/
  crypto : Stream' Bool
  log : List Event := []

/-- Before there is a backend. -/
def Setup.new (answers : Stream' (Request → Reply)) (params : Stream' (Except Status Tpm2Params))
    (crypto : Stream' Bool) : Setup where
  backend := {}
  answers
  params
  crypto

/-- The code of the backend. -/
abbrev Code (α : Type) : Type := Proc Setup Status α

/-- Make a call. -/
def ask (request : Request) : Code Reply := fun s =>
  let reply := s.answers.head request
  (.ok reply, { s with answers := s.answers.tail, log := s.log ++ [.asked request reply] })

/-- A call with the context `esys_`: when it is null, the call fails at once. -/
def askEsys (request : Request) : Code Reply := do
  if (← gets (·.backend)).esys then ask request else return .failed

/-- The parameters of the installation, from the store. -/
def askParams : Code Tpm2Params := fun s =>
  match s.params.head with
  | .ok params => (.ok params, { s with params := s.params.tail, log := s.log ++ [.given params] })
  | .error e => (.err e, { s with params := s.params.tail })

def askCrypto : Code Bool := fun s => (.ok s.crypto.head, { s with crypto := s.crypto.tail })

/-- Change the members. -/
def update (f : Tpm2KeyBackend → Tpm2KeyBackend) : Code Unit :=
  modify fun s => { s with backend := f s.backend }

variable (P : Provider) (M : Mu)

/-- The first half of `shutdown`: the primary and the ESYS context. -/
def closeEsys : Code Unit := do
  match (← gets (·.backend)).primary with
  | some o =>
    let _ ← ask (.flushContext o)
    update ({ · with primary := none })
  | none => pure ()
  let _ ← ask .esysFinalize
  update ({ · with esys := false })

/-- The second half: the TCTI context. -/
def closeTcti : Code Unit := do
  if (← gets (·.backend)).tcti then
    let _ ← ask .tctiFinalize
    update ({ · with tcti := false })

/-- `shutdown`. -/
def shutdown : Code Unit := do
  if (← gets (·.backend)).esys then closeEsys
  closeTcti
  update ({ · with params := .zero })

/-- A step of `init` has failed. -/
def abandon : Code Unit := do
  shutdown
  throw .other

/-- `init` with an ESYS context. -/
def createPrimary (tcti : Bytes) (params : Tpm2Params) : Code Unit := do
  let _ ← askEsys .startup
  if ← askCrypto then
    match ← askEsys (.createPrimary (primaryTemplate P params.srkUniqueSeed)) with
    | .object o => update ({ · with primary := some o, tctiName := tcti })
    | _ => abandon
  else abandon

/-- `init`. -/
def init (tcti : Bytes) (params : Tpm2Params) : Code Unit := do
  update ({ · with params })
  match ← ask (.tctiInitialize tcti) with
  | .done =>
    update ({ · with tcti := true })
    match ← ask .esysInitialize with
    | .done =>
      update ({ · with esys := true })
      createPrimary P tcti params
    | _ => abandon
  | _ => throw .other

/-- `reinit_after_reset`. -/
def reinitAfterReset : Code Unit := do
  require (← gets (·.backend)).hasProvider .other
  let params ← askParams
  let tcti := (← gets (·.backend)).tctiName
  shutdown
  init P tcti params

/-- A point, if both coordinates have 32 bytes. -/
def Public.point (pub : Public) : Option P256PublicKey :=
  match Block.ofBytes? 32 pub.x, Block.ofBytes? 32 pub.y with
  | some x, some y => some ⟨x, y⟩
  | _, _ => none

/-- The handle of a new object. -/
def handleOf (pub : Public) (priv : Bytes) : Option Bytes :=
  match M.marshalPublic pub, M.marshalPrivate priv with
  | some pub, some priv => some (encodeHandle pub priv)
  | _, _ => none

/-- `generate`. -/
def generate : Code SigningKey := do
  let b ← gets (·.backend)
  match ← askEsys (.create b.primary b.params.objectAuth [] signingChildTemplate) with
  | .blobs pub priv =>
    match pub.point, handleOf M pub priv with
    | some point, some handle => return ⟨.tpm2, point, handle⟩
    | _, _ => throw .other
  | _ => throw .other

/-- The two halves of a handle. A read outside of it would be the end of the process. -/
def splitHandle (handle : Bytes) : Code (Bytes × Bytes) :=
  match decodeHandle handle with
  | none => die
  | some parts => ofExcept parts

/-- `load`: the TPM is not asked. -/
def load (handle : Bytes) (pub : P256PublicKey) : Code SigningKey := do
  let parts ← splitHandle handle
  match M.unmarshalPublic parts.1 with
  | some p =>
    require (p.isEcc ∧ p.x = pub.x.bytes ∧ p.y = pub.y.bytes) .invalidCredential
    return ⟨.tpm2, pub, handle⟩
  | none => throw .invalidCredential

/-- `destroy`. -/
def destroy (_handle : Bytes) : Code Unit := return ()

/-- `wrap_secret`. -/
def wrapSecret (secret : Bytes) : Code Bytes := do
  let b ← gets (·.backend)
  require (secret ≠ [] ∧ secret.length ≤ M.maxSensitiveData) .invalidParameter
  match ← askEsys (.create b.primary b.params.objectAuth secret sealTemplate) with
  | .blobs pub priv =>
    match handleOf M pub priv with
    | some handle => return handle
    | none => throw .other
  | _ => throw .other

/-- `load_transient`. -/
def loadTransient (handle : Bytes) : Code EsysTr := do
  let parts ← splitHandle handle
  match M.unmarshalPublic parts.1, M.unmarshalPrivate parts.2 with
  | some pub, some priv =>
    let b ← gets (·.backend)
    match ← askEsys (.load b.primary priv pub) with
    | .object o =>
      match ← askEsys (.setAuth o b.params.objectAuth) with
      | .done => return o
      | _ =>
        let _ ← askEsys (.flushContext o)
        throw .other
    | _ => throw .invalidCredential
  | _, _ => throw .invalidCredential

/-- A transient object is used once. -/
def withTransient (handle : Bytes) (request : EsysTr → Request) : Code Reply := do
  let o ← loadTransient M handle
  let reply ← askEsys (request o)
  let _ ← askEsys (.flushContext o)
  return reply

/-- `unwrap_secret`. -/
def unwrapSecret (wrapped : Bytes) : Code Bytes := do
  match ← withTransient M wrapped .unseal with
  | .data d => return d
  | _ => throw .other

/-- `sign`: numbers are padded on the left. -/
def sign (handle message : Bytes) : Code Bytes := do
  match ← withTransient M handle fun o => .sign o (P.sha256 message) with
  | .signature sig =>
    require (sig.isEcdsa ∧ sig.r.length ≤ 32 ∧ sig.s.length ≤ 32) .other
    let pad (n : Bytes) := Block.ofPadded 32 (List.replicate (32 - n.length) 0 ++ n)
    return ecdsaP256RsToDerLowS (pad sig.r) (pad sig.s)
  | _ => throw .other

/-! ### What the authenticator relies on -/

/-- A signature is short enough for a response to fit. -/
theorem returns_sign (handle message : Bytes) :
    Returns (sign P M handle message) fun sig => sig.length ≤ 72 := by
  refine Returns.bind_right fun reply => ?_
  cases reply with
  | signature sig =>
    exact Returns.bind_right fun _ => Returns.pure (length_ecdsaP256RsToDerLowS_le _ _)
  | failed | done | object o | blobs pub priv | data d => exact Returns.throw _

/-- A new key has a handle. -/
theorem returns_generate :
    Returns (generate M) fun key => key.kind = .tpm2 ∧ key.ref ≠ [] := by
  refine Returns.bind_right fun b => Returns.bind_right fun reply => ?_
  cases reply with
  | blobs pub priv =>
    dsimp only
    rcases pub.point with _ | point
    · exact Returns.throw _
    rcases hhandle : handleOf M pub priv with _ | handle
    · exact Returns.throw _
    refine Returns.pure ⟨rfl, ?_⟩
    rw [handleOf] at hhandle
    split at hhandle
    · obtain rfl := Option.some.inj hhandle
      exact List.cons_ne_nil _ _
    · cases hhandle
  | failed | done | object o | data d | signature sig => exact Returns.throw _

/-! ### The life of a backend -/

/-- The loop of `make_tpm2_key_backend` over the ways to the TPM: a backend for each, until one
works. -/
def probe (params : Tpm2Params) : List Bytes → Code Bool
  | [] => return false
  | tcti :: rest => do
    update fun _ => {}
    match ← (init P tcti params).attempt with
    | .ok _ =>
      update ({ · with hasProvider := true })
      return true
    | .error _ =>
      shutdown
      probe params rest

/-- `make_tpm2_key_backend`, for the ways to the TPM that can be accessed: whether there is a
backend. -/
def makeTpm2KeyBackend (tctis : List Bytes) : Code Bool := do
  if tctis = [] then return false
  match ← askParams.attempt with
  | .ok params => probe P params tctis
  | .error _ => return false

/-- A call of the backend. -/
inductive Call
  | generate
  | load (handle : Bytes) (pub : P256PublicKey)
  | sign (handle message : Bytes)
  | wrapSecret (secret : Bytes)
  | unwrapSecret (wrapped : Bytes)
  | destroy (handle : Bytes)
  | reinitAfterReset

/-- What a call does, whatever it returns. -/
def Call.exec : Call → Code Unit
  | generate => do let _ ← Tpm2.generate M
  | load handle pub => do let _ ← Tpm2.load M handle pub
  | sign handle message => do let _ ← Tpm2.sign P M handle message
  | wrapSecret secret => do let _ ← Tpm2.wrapSecret M secret
  | unwrapSecret wrapped => do let _ ← Tpm2.unwrapSecret M wrapped
  | destroy handle => Tpm2.destroy handle
  | reinitAfterReset => Tpm2.reinitAfterReset P

/-- The calls, one after the other: a lock keeps them apart, and one that fails is followed by the
next one. -/
def calls (l : List Call) : Code Unit :=
  forEach (fun c => (c.exec P M).attempt >>= fun _ => pure ()) l

/-- A backend is made and called. -/
def use (tctis : List Bytes) (l : List Call) : Code Unit := do
  if ← makeTpm2KeyBackend P tctis then calls P M l

end Tpm2

end Swpasskey
