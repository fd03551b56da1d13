import Swpasskey.Ctap.GetAssertion
import Swpasskey.Ctap.MakeCredential

/-!
# CTAP1/U2F

`handle_u2f`: the APDU parser, registration with its attestation key, and authentication.
An error is a status word.
-/

namespace Swpasskey

open Proc

def kSwConditionsNotSatisfied : UInt16 := 0x6985
def kSwWrongData : UInt16 := 0x6A80
def kSwIncorrectP1P2 : UInt16 := 0x6A86
def kSwWrongLength : UInt16 := 0x6700
def kSwInsNotSupported : UInt16 := 0x6D00
def kSwClaNotSupported : UInt16 := 0x6E00
def kSwExecutionError : UInt16 := 0x6F00

def kAuthEnforce : UInt8 := 0x03
def kAuthCheckOnly : UInt8 := 0x07
def kAuthDontEnforce : UInt8 := 0x08

/-- `Apdu`. -/
structure Apdu where
  cla : UInt8
  ins : UInt8
  p1 : UInt8
  p2 : UInt8
  data : Bytes := []
  deriving DecidableEq

/-- `parse_apdu`: short and extended forms. -/
def parseApdu : Bytes → Option Apdu
  | cla :: ins :: p1 :: p2 :: rest =>
    if rest.length ≤ 1 then some { cla, ins, p1, p2 }
    else
      let b := rest.getD 0 0
      if b = 0 ∧ rest.length < 3 then none
      else
        let lc := if b ≠ 0 then b.toNat else (rest.getD 1 0).toNat * 256 + (rest.getD 2 0).toNat
        let off := if b ≠ 0 then 1 else 3
        let maxLe := if b ≠ 0 then 1 else 2
        if rest.length < off + lc ∨ rest.length - off - lc > maxLe then none
        else some { cla, ins, p1, p2, data := (rest.drop off).take lc }
  | _ => none

/-- The lower-case hexadecimal digits of a byte. -/
def hexByte (b : UInt8) : Bytes :=
  let digit := fun (n : UInt8) => if n < 10 then 0x30 + n else 0x57 + n
  [digit (b >>> 4), digit (b &&& 0x0F)]

/-- `hex`. -/
def hex (v : Bytes) : Bytes := v.flatMap hexByte

/-- `kAttestationCn`. -/
def kAttestationCn : Bytes := ascii "swpasskey U2F Self-Attestation"

variable (D : Device)

/-- `attestation_material`: the stored attestation key, or a new one. -/
def attestationMaterial : Cmd Status (SigningKey × Bytes) := do
  match ← gets fun w => w.store.u2f with
  | some a =>
    match Block.ofBytes? 32 a.priv with
    | none => throw .other
    | some scalar =>
      require (!a.certDer.isEmpty) .other
      match D.provider.p256PubFromScalar scalar with
      | none => throw .other
      | some pub =>
        require (← askLoad) .other
        return (⟨.software, pub, scalar.bytes⟩, a.certDer)
  | none =>
    let key ← generateKey .software
    match D.provider.makeSelfSignedP256Cert (Block.ofPadded 32 key.ref) key.pub kAttestationCn with
    | none => throw .other
    | some cert =>
      Store.setU2fAttestation { priv := key.ref, certDer := cert }
      return (key, cert)

/-- The row of a registration, still without a key. -/
def u2fTemplate (application : Block 32) : Credential :=
  Credential.template (ascii "u2f:" ++ hex application.bytes) application [] {} false

/-- `u2f_register` once there is an attestation key. -/
def registerWith (challenge application : Block 32) (attestKey : SigningKey) (certDer : Bytes) :
    Cmd Status U2fReply := do
  let (_, c) ← createRow D (u2fTemplate application)
  let sig ← signDer attestKey ([0x00] ++ application.bytes ++ challenge.bytes ++ c.credId.bytes ++
    uncompressed c.pub)
  storeRow D c
  return .registered c.pub c.credId certDer sig

/-- `u2f_register` once the user has approved. -/
def registerRow (challenge application : Block 32) : Cmd Status U2fReply := do
  require ((← gets World.store).remaining ≠ 0) .other
  let (attestKey, certDer) ← attestationMaterial D
  registerWith D challenge application attestKey certDer

/-- `u2f_register`. -/
def u2fRegister (data : Bytes) : Cmd UInt16 U2fReply := do
  require (data.length = 64) kSwWrongLength
  let challenge := Block.ofPadded 32 (data.take 32)
  let application := Block.ofPadded 32 (data.drop 32)
  let decision ← confirmUp .makeCredential (ascii "u2f:" ++ hex application.bytes) [] application
  require (decision = .allow) kSwConditionsNotSatisfied
  (registerRow D challenge application).orFail kSwExecutionError

/-- `u2f_authenticate` once the presence question is settled. -/
def signChallenge (cred : Credential) (challenge application : Block 32) (enforce : Bool) :
    Cmd Status U2fReply := do
  let presence : UInt8 := if enforce then 0x01 else 0x00
  let count := assertionCount cred enforce
  let key ← loadKey D cred
  let sig ← signDer key (application.bytes ++ [presence] ++ be32 count ++ challenge.bytes)
  if enforce then
    let now ← nowUnix
    Store.updateCountAndUsed cred.credId.bytes count now
  return .signed presence count sig

/-- `u2f_authenticate`. -/
def u2fAuthenticate (p1 : UInt8) (data : Bytes) : Cmd UInt16 U2fReply := do
  require (65 ≤ data.length) kSwWrongLength
  require (data.length = 65 + (data.getD 64 0).toNat) kSwWrongLength
  require (p1 = kAuthEnforce ∨ p1 = kAuthCheckOnly ∨ p1 = kAuthDontEnforce) kSwIncorrectP1P2
  let challenge := Block.ofPadded 32 (data.take 32)
  let application := Block.ofPadded 32 ((data.drop 32).take 32)
  match (← gets World.store).find application (data.drop 65) with
  | none => throw kSwWrongData
  | some cred =>
    require (p1 ≠ kAuthCheckOnly) kSwConditionsNotSatisfied
    if p1 = kAuthEnforce then
      let decision ← confirmUp .getAssertion cred.rpId [] application
      require (decision = .allow) kSwConditionsNotSatisfied
    (signChallenge D cred challenge application (p1 = kAuthEnforce)).orFail kSwExecutionError

/-- `handle_u2f`. The pending assertion list is **not** dropped here. -/
def handleU2f (apdu : Bytes) : Cmd UInt16 U2fReply := do
  require D.u2fEnabled kSwInsNotSupported
  match parseApdu apdu with
  | none => throw kSwWrongLength
  | some req =>
    require (req.cla = 0) kSwClaNotSupported
    if req.ins = 0x03 then return .version
    else if req.ins = 0x01 then u2fRegister D req.data
    else if req.ins = 0x02 then u2fAuthenticate D req.p1 req.data
    else throw kSwInsNotSupported

/-! ### What each one can do -/

section Rules

variable {D}

/-- **What the signing of a challenge can do.** It fails before it touches anything; or it
leaves the store alone; or, when user presence is enforced, it does what
`update_count_and_used` does. -/
theorem run_signChallenge {w : World} {cred : Credential} {challenge application : Block 32}
    {enforce : Bool} {Q : U2fReply → World → Prop} {E : Status → World → Prop} {C : World → Prop}
    (hrefuse : ∀ r e, E r (w.withEnv e))
    (hplain : enforce = false → ∀ sig e, Q (.signed 0x00 cred.signCount sig) (w.withEnv e))
    (hbump : enforce = true → ∀ now e sig,
      (Store.updateCountAndUsed cred.credId.bytes (cred.signCount + 1) now).Run (w.withEnv e)
        (fun _ => Q (.signed 0x01 (cred.signCount + 1) sig)) E C)
    (hC : ∀ e, C (w.withEnv e)) :
    (signChallenge D cred challenge application enforce).Run w Q E C := by
  refine run_bind.mpr ((quiet_loadKey cred).run_of (fun key e => ?_) hrefuse hC)
  refine run_bind.mpr ((quiet_signDer _ _).run_of (fun sig e => ?_) hrefuse hC)
  cases enforce with
  | false => exact hplain rfl sig e
  | true => exact run_bind.mpr (run_ask (fun now e => run_bind.mpr (hbump rfl now e sig)) hC)

theorem u2fRegister_returns (data : Bytes) : Returns (u2fRegister D data)
    fun r => ∃ pub keyHandle certDer sig, r = .registered pub keyHandle certDer sig := by
  refine Returns.bind_right fun _ => Returns.bind_right fun _ => Returns.bind_right fun _ =>
    Returns.orFail ?_
  refine Returns.bind_right fun _ => Returns.bind_right fun _ => Returns.bind_right fun _ => ?_
  exact Returns.bind_right fun _ => Returns.bind_right fun _ => Returns.bind_right fun _ =>
    Returns.pure ⟨_, _, _, _, rfl⟩

end Rules

end Swpasskey
