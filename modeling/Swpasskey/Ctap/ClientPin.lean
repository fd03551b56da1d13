import Swpasskey.Ctap.Responses
import Swpasskey.Store.Mutators

/-!
# authenticatorClientPIN, protocol 2

`detail::PinManager`: the protocol-2 primitives, the PIN check with its retry counter, the
setting and changing of the PIN, and the life of the pinUvAuthToken.
-/

namespace Swpasskey

open Proc

/-! ### The provider's fallible calls -/

section Provider

variable (P : Provider)

/-- `hmac_sha256`. -/
def hmacSha256 (key msg : Bytes) : Cmd Status (Block 32) := do
  require (← askCrypto) .other
  return P.hmacSha256 key msg

/-- `hkdf_sha256`. -/
def hkdfSha256 (ikm salt info : Bytes) : Cmd Status (Block 32) := do
  require (← askCrypto) .other
  return P.hkdfSha256 ikm salt info

/-- `aes256cbc_encrypt`, without padding. -/
def aes256cbcEncrypt (key : Block 32) (iv : Block 16) (pt : Bytes) : Cmd Status Bytes := do
  require (pt.length % 16 = 0) .invalidParameter
  require (← askCrypto) .other
  return P.aes256cbcEncrypt key iv pt

/-- `aes256cbc_decrypt`, without padding. -/
def aes256cbcDecrypt (key : Block 32) (iv : Block 16) (ct : Bytes) : Cmd Status Bytes := do
  require (ct.length % 16 = 0) .invalidParameter
  require (← askCrypto) .other
  return P.aes256cbcDecrypt key iv ct

/-- `detail::SharedSecret`. -/
structure SharedSecret where
  hmacKey : Block 32
  aesKey : Block 32

/-- `derive_shared_secret`. -/
def deriveSharedSecret (z : Block 32) : Cmd Status SharedSecret := do
  let salt := List.replicate 32 0
  let h ← (hkdfSha256 P z.bytes salt (ascii "CTAP2 HMAC key")).attempt
  let a ← (hkdfSha256 P z.bytes salt (ascii "CTAP2 AES key")).attempt
  match h, a with
  | .ok h, .ok a => return ⟨h, a⟩
  | _, _ => throw .other

/-- `pin2_encrypt`: a random IV, then the ciphertext. -/
def pin2Encrypt (ss : SharedSecret) (pt : Bytes) : Cmd Status Bytes := do
  let iv ← random 16
  let ct ← aes256cbcEncrypt P ss.aesKey iv pt
  return iv.bytes ++ ct

/-- `pin2_decrypt`. -/
def pin2Decrypt (ss : SharedSecret) (ct : Bytes) : Cmd Status Bytes := do
  require (32 ≤ ct.length && ct.length % 16 = 0) .invalidParameter
  aes256cbcDecrypt P ss.aesKey (Block.ofPadded 16 (ct.take 16)) (ct.drop 16)

/-- `pin2_authenticate`. -/
def pin2Authenticate (key msg : Bytes) : Cmd Status (Block 32) := hmacSha256 P key msg

variable {P}

theorem quiet_hmacSha256 (key msg : Bytes) : Quiet (hmacSha256 P key msg) :=
  (quiet_ask _).bind fun _ => (Guarantees.require _ _).bind fun _ => Guarantees.pure _

theorem quiet_hkdfSha256 (ikm salt info : Bytes) : Quiet (hkdfSha256 P ikm salt info) :=
  (quiet_ask _).bind fun _ => (Guarantees.require _ _).bind fun _ => Guarantees.pure _

theorem quiet_deriveSharedSecret (z : Block 32) : Quiet (deriveSharedSecret P z) := by
  refine (quiet_hkdfSha256 _ _ _).attempt.bind fun h =>
    (quiet_hkdfSha256 _ _ _).attempt.bind fun a => ?_
  rcases h with _ | h <;> rcases a with _ | a
  · exact Guarantees.throw _
  · exact Guarantees.throw _
  · exact Guarantees.throw _
  · exact Guarantees.pure _

theorem quiet_pin2Encrypt (ss : SharedSecret) (pt : Bytes) : Quiet (pin2Encrypt P ss pt) := by
  refine (quiet_random 16).bind fun iv => Guarantees.bind ?_ fun _ => Guarantees.pure _
  refine (Guarantees.require _ _).bind fun _ => (quiet_ask _).bind fun _ => ?_
  exact (Guarantees.require _ _).bind fun _ => Guarantees.pure _

theorem quiet_pin2Decrypt (ss : SharedSecret) (ct : Bytes) : Quiet (pin2Decrypt P ss ct) := by
  refine (Guarantees.require _ _).bind fun _ => (Guarantees.require _ _).bind fun _ => ?_
  exact (quiet_ask _).bind fun _ => (Guarantees.require _ _).bind fun _ => Guarantees.pure _

end Provider

/-- The number of code points of a UTF-8 string: bytes that do not continue one. -/
def codePoints (pin : Bytes) : ℕ := (pin.filter fun c => c &&& 0xC0 != 0x80).length

/-- The 4..63 code points policy. -/
def pinPolicy (pin : Bytes) : Bool :=
  !(pin.isEmpty || codePoints pin < 4 || codePoints pin > 63 || pin.length > 63)

/-- `failure_delay`: the doubling loop, then the cap. -/
def failureDelay (consecutive : UInt32) (base : ℕ) : ℕ :=
  if consecutive < 3 then 0
  else
    let cap := base * 12
    let d := (List.range (consecutive.toNat - 3)).foldl
      (fun d _ => if d < cap then d * 2 else d) base
    if d > cap then cap else d

namespace PinManager

def kPermMc : UInt8 := 0x01
def kPermGa : UInt8 := 0x02
def kMaxRetries : UInt8 := 8
def kSupportedPerms : UInt8 := kPermMc ||| kPermGa

/-- Change the PIN manager's members. -/
def update (f : PinManager → PinManager) : Cmd Status Unit :=
  modify fun w => { w with pin := f w.pin }

/-- `pin_set`. -/
def pinSet (w : World) : Bool := w.store.pin.hash.isSome

variable (D : Device)

/-- `invalidate_token`. -/
def invalidateToken : Cmd Status Unit := update fun p => { p with token := none }

/-- `regenerate_key_agreement`: the token goes even when no new key can be made. -/
def regenerateKeyAgreement : Cmd Status Unit := do
  invalidateToken
  match ← askEcdhKey with
  | some k => update fun p => { p with ka := some k }
  | none => throw .other

/-- `shared_secret_for`. -/
def sharedSecretFor (platformKey : P256PublicKey) : Cmd Status SharedSecret := do
  match ← gets fun w => w.pin.ka with
  | none => throw .other
  | some ka =>
    match D.provider.sharedSecretX ka platformKey with
    | none => throw .invalidParameter
    | some z => deriveSharedSecret D.provider z

/-- A new PIN reaches the store: `store_.set_pin` with all retries. -/
def install (hash : Block 16) : Cmd Status Unit := do
  emit (.pinInstalled hash)
  (Store.setPin { hash := some hash, retries := kMaxRetries }).orFail .other

/-- The hash of a PIN that satisfies the policy. -/
def hashPin (pin : Bytes) : Cmd Status (Block 16) := do
  require (pinPolicy pin) .pinPolicyViolation
  return (D.provider.sha256 pin).left 16 (by decide)

/-- `set_pin_local`. -/
def setPinLocal (pin : Bytes) : Cmd Status Unit := do
  let hash ← hashPin D pin
  install hash
  update fun p => { p with consecutiveFailures := 0 }
  invalidateToken

/-- `pin_from_padded`: the hash of the PIN in front of the first zero byte. -/
def pinFromPadded (ss : SharedSecret) (newPinEnc : Bytes) : Cmd Status (Block 16) := do
  let padded ← (pin2Decrypt D.provider ss newPinEnc).orFail .pinAuthInvalid
  require (64 ≤ padded.length) .pinPolicyViolation
  hashPin D (padded.takeWhile (· != 0))

/-- The failure delay: the loop's body polls the cancel token. -/
def awaitDelay : Cmd Status Unit := do
  let p ← gets World.pin
  if failureDelay p.consecutiveFailures D.pinFailureDelayBase = 0 then return ()
  else
    let polls ← askDelayPolls
    loop (fun _ => do require (!(← isCancelled)) .keepaliveCancel) polls ()

/-- The comparison of `check_pin_hash`, against the hash it read from the store. -/
def comparePinHash (got : Bytes) (hash : Block 16) : Cmd Status Bool := do
  let equal := consttimeEqual got hash.bytes
  emit (.pinCompared hash equal)
  return equal

/-- `check_pin_hash`: the retry is spent and durable before the comparison. -/
def checkPinHash (ss : SharedSecret) (pinHashEnc : Bytes) : Cmd Status Unit := do
  let pin ← gets fun w => w.store.pin
  match pin.hash with
  | none => throw .pinNotSet
  | some hash =>
    require (pin.retries ≠ 0) .pinBlocked
    awaitDelay D
    let got ← (pin2Decrypt D.provider ss pinHashEnc).orFail .pinAuthInvalid
    require (got.length = 16) .pinAuthInvalid
    (Store.setPin { hash := some hash, retries := pin.retries - 1 }).orFail .other
    if ← comparePinHash got hash then
      update fun p => { p with consecutiveFailures := 0 }
      if pin.retries - 1 ≠ kMaxRetries then
        -- best effort: the result is ignored
        let _ ← (Store.setPin { hash := some hash, retries := kMaxRetries }).attempt
      return ()
    else
      update fun p => { p with consecutiveFailures := p.consecutiveFailures + 1 }
      let _ ← regenerateKeyAgreement.attempt
      if pin.retries - 1 = 0 then throw .pinBlocked else throw .pinInvalid

/-- `set_pin` up to the hash of the new PIN: only while no PIN is set. -/
def setPinChecks (platformKey : P256PublicKey) (newPinEnc pinAuth : Bytes) :
    Cmd Status (Block 16) := do
  require (!(← gets pinSet)) .pinAuthInvalid
  let ss ← sharedSecretFor D platformKey
  let mac ← (pin2Authenticate D.provider ss.hmacKey.bytes newPinEnc).orFail .pinAuthInvalid
  require (consttimeEqual mac.bytes pinAuth) .pinAuthInvalid
  pinFromPadded D ss newPinEnc

/-- `set_pin`. -/
def setPin (platformKey : P256PublicKey) (newPinEnc pinAuth : Bytes) : Cmd Status Reply := do
  let hash ← setPinChecks D platformKey newPinEnc pinAuth
  install hash
  update fun p => { p with consecutiveFailures := 0 }
  return .empty

/-- `change_pin` after its old-PIN check. -/
def changePinTo (ss : SharedSecret) (newPinEnc : Bytes) : Cmd Status Reply := do
  let hash ← pinFromPadded D ss newPinEnc
  install hash
  invalidateToken
  return .empty

/-- `change_pin` up to and with its old-PIN check. -/
def changePinCheck (platformKey : P256PublicKey) (pinHashEnc newPinEnc pinAuth : Bytes) :
    Cmd Status SharedSecret := do
  let ss ← sharedSecretFor D platformKey
  let mac ← (pin2Authenticate D.provider ss.hmacKey.bytes (newPinEnc ++ pinHashEnc)).orFail
    .pinAuthInvalid
  require (consttimeEqual mac.bytes pinAuth) .pinAuthInvalid
  checkPinHash D ss pinHashEnc
  return ss

/-- `change_pin`. -/
def changePin (platformKey : P256PublicKey) (pinHashEnc newPinEnc pinAuth : Bytes) :
    Cmd Status Reply := do
  let ss ← changePinCheck D platformKey pinHashEnc newPinEnc pinAuth
  changePinTo D ss newPinEnc

/-- A fresh token becomes the current one. -/
def issueToken (bytes : Block 32) (permissions : UInt8) (rpId : Option Bytes) :
    Cmd Status Unit := do
  let now ← steadyNow
  update fun p => { p with
    token := some {
      bytes, permissions
      permissionsRpId := rpId
      expiry := now + D.pinTokenIdleTimeout } }
  emit (.tokenIssued bytes permissions rpId now)

/-- `get_token`. -/
def getToken (platformKey : P256PublicKey) (pinHashEnc : Bytes) (permissions : UInt8)
    (rpId : Option Bytes) : Cmd Status Reply := do
  let ss ← sharedSecretFor D platformKey
  checkPinHash D ss pinHashEnc
  let bytes ← random 32
  issueToken D bytes permissions rpId
  match ← (pin2Encrypt D.provider ss bytes.bytes).attempt with
  | .ok enc => return .pinToken enc
  | .error _ => do
    invalidateToken
    throw .other

/-- `verify`: the parameter is a MAC of the client data hash under the current token, which
has the permission and is bound to the RP, or is bound to it now. -/
def verify (param : Bytes) (protocol : UInt64) (clientDataHash : Block 32) (permission : UInt8)
    (rpId : Bytes) : Cmd Status Bool := do
  require (protocol = 2) .invalidParameter
  match ← gets fun w => w.pin.token with
  | none => throw .pinAuthInvalid
  | some t =>
    let now ← steadyNow
    if now > t.expiry then
      invalidateToken
      throw .pinAuthInvalid
    else
      let mac ← (pin2Authenticate D.provider t.bytes.bytes clientDataHash.bytes).orFail
        .pinAuthInvalid
      require (consttimeEqual mac.bytes param) .pinAuthInvalid
      require (t.permissions &&& permission ≠ 0) .unauthorizedPermission
      require (t.permissionsRpId.all (· = rpId)) .pinAuthInvalid
      let touched ← steadyNow
      update fun p => { p with
        token := some { t with
          permissionsRpId := some rpId
          expiry := touched + D.pinTokenIdleTimeout } }
      emit (.tokenVerified t.bytes param clientDataHash permission rpId now touched)
      return true

/-- getPinUvAuthTokenUsingPinWithPermissions, after its members are known to be there. -/
def getTokenWithPermissions (platformKey : P256PublicKey) (pinHashEnc : Bytes)
    (permissions : UInt64) (rpId : Option Bytes) : Cmd Status Reply := do
  require (!(permissions = 0 || permissions > 0xFF)) .invalidParameter
  let perms := permissions.toUInt8
  require (perms &&& ~~~kSupportedPerms = 0) .unauthorizedPermission
  require (!(perms &&& kPermMc ≠ 0 && rpId.isNone)) .unauthorizedPermission
  getToken D platformKey pinHashEnc perms rpId

/-- `get_key_agreement`. -/
def getKeyAgreement : Cmd Status Reply := do
  match ← gets fun w => w.pin.ka with
  | none => throw .other
  | some ka => return .keyAgreement (D.provider.ecdhPub ka)

/-- `handle`, once the request is parsed. -/
def dispatch (q : ClientPinRequest) : Cmd Status Reply :=
  match q.sub with
  | none => throw .missingParameter
  | some sub =>
    if sub = 0x01 then gets fun w => .retries w.store.pin.retries
    else if sub = 0x06 ∨ sub = 0x07 then throw .invalidSubcommand  -- no built-in UV
    else
      match q.protocol with
      | none => throw .missingParameter
      | some protocol =>
        if protocol ≠ 2 then throw .invalidParameter
        else if sub = 0x02 then getKeyAgreement D
        else if sub = 0x03 then
          match q.keyAgreement, q.newPinEnc, q.pinAuth with
          | some key, some newPinEnc, some pinAuth => setPin D key newPinEnc pinAuth
          | _, _, _ => throw .missingParameter
        else if sub = 0x04 then
          match q.keyAgreement, q.newPinEnc, q.pinHashEnc, q.pinAuth with
          | some key, some newPinEnc, some pinHashEnc, some pinAuth =>
            changePin D key pinHashEnc newPinEnc pinAuth
          | _, _, _, _ => throw .missingParameter
        else if sub = 0x05 then
          match q.keyAgreement, q.pinHashEnc with
          | some key, some pinHashEnc => getToken D key pinHashEnc (kPermMc ||| kPermGa) none
          | _, _ => throw .missingParameter
        else if sub = 0x09 then
          match q.keyAgreement, q.pinHashEnc, q.permissions with
          | some key, some pinHashEnc, some permissions =>
            getTokenWithPermissions D key pinHashEnc permissions q.rpId
          | _, _, _ => throw .missingParameter
        else throw .invalidSubcommand

/-- `PinManager::handle`. -/
def handle (body : Bytes) : Cmd Status Reply := do
  let q ← ofExcept (Cbor.Reader.parseWith Requests.parseClientPin body)
  dispatch D q

/-! ### What each operation can do -/

variable {D}

theorem quiet_sharedSecretFor (key : P256PublicKey) : Quiet (sharedSecretFor D key) := by
  refine (Guarantees.gets _).bind fun ka => ?_
  rcases ka with _ | ka
  · exact Guarantees.throw _
  · dsimp only
    rcases D.provider.sharedSecretX ka key with _ | z
    · exact Guarantees.throw _
    · exact quiet_deriveSharedSecret z

theorem quiet_getKeyAgreement : Quiet (getKeyAgreement D) := by
  refine (Guarantees.gets _).bind fun ka => ?_
  rcases ka with _ | ka
  · exact Guarantees.throw _
  · exact Guarantees.pure _

/-- A clientPIN request is refused, answered without any effect, or one of the four
operations below. -/
theorem dispatch_induction {P : Cmd Status Reply → Prop}
    (hthrow : ∀ r, P (throw r)) (hretries : P (gets fun w => .retries w.store.pin.retries))
    (hagree : P (getKeyAgreement D)) (hset : ∀ key newPinEnc auth, P (setPin D key newPinEnc auth))
    (hchange : ∀ key enc newPinEnc auth, P (changePin D key enc newPinEnc auth))
    (htoken : ∀ key enc, P (getToken D key enc (kPermMc ||| kPermGa) none))
    (hperms : ∀ key enc perms rpId, P (getTokenWithPermissions D key enc perms rpId))
    (q : ClientPinRequest) : P (dispatch D q) := by
  have hite : ∀ {c : Prop} [Decidable c] {m m' : Cmd Status Reply}, P m → P m' →
      P (if c then m else m') := fun hm hm' => by split <;> assumption
  unfold dispatch
  rcases q.sub with _ | sub
  · exact hthrow _
  refine hite hretries (hite (hthrow _) ?_)
  -- getRetries is answered before the protocol is looked at
  rcases q.protocol with _ | protocol
  · exact hthrow _
  refine hite (hthrow _) (hite hagree (hite ?_ (hite ?_ (hite ?_ (hite ?_ (hthrow _))))))
  · split
    · exact hset _ _ _
    · exact hthrow _
  · split
    · exact hchange _ _ _ _
    · exact hthrow _
  · split
    · exact htoken _ _
    · exact hthrow _
  · split
    · exact hperms _ _ _ _
    · exact hthrow _

/-- The replies of the clientPIN command. -/
def ReplyOfPin : Reply → Prop
  | .empty | .retries _ | .keyAgreement _ | .pinToken _ => True
  | _ => False

theorem getToken_returns (key : P256PublicKey) (enc : Bytes) (perms : UInt8) (rpId : Option Bytes) :
    Returns (getToken D key enc perms rpId) ReplyOfPin := by
  refine Returns.bind_right fun _ => Returns.bind_right fun _ => Returns.bind_right fun _ =>
    Returns.bind_right fun _ => Returns.bind_right fun r => ?_
  rcases r with _ | enc
  · exact Returns.bind_right fun _ => Returns.throw _
  · exact Returns.pure trivial

theorem handle_returns (body : Bytes) : Returns (handle D body) ReplyOfPin := by
  refine Returns.bind_right fun q => dispatch_induction (P := fun m => Returns m ReplyOfPin)
    (fun _ => Returns.throw _) (Returns.gets fun _ => trivial) (Returns.bind_right fun ka => ?_)
    (fun _ _ _ => Returns.bind_right fun _ => Returns.bind_right fun _ =>
        Returns.bind_right fun _ =>
      Returns.pure trivial)
    (fun _ _ _ _ => Returns.bind_right fun _ => Returns.bind_right fun _ =>
      Returns.bind_right fun _ => Returns.bind_right fun _ => Returns.pure trivial)
    (fun _ _ => getToken_returns _ _ _ _) (fun _ _ _ _ => Returns.bind_right fun _ =>
      Returns.bind_right fun _ => Returns.bind_right fun _ => getToken_returns _ _ _ _) q
  rcases ka with _ | ka
  · exact Returns.throw _
  · exact Returns.pure trivial

theorem quiet_hashPin (pin : Bytes) : Quiet (hashPin D pin) :=
  (Guarantees.require _ _).bind fun _ => Guarantees.pure _

theorem quiet_pinFromPadded (ss : SharedSecret) (newPinEnc : Bytes) :
    Quiet (pinFromPadded D ss newPinEnc) :=
  ((quiet_pin2Decrypt _ _).orFail _).bind fun _ =>
    (Guarantees.require _ _).bind fun _ => quiet_hashPin _

theorem quiet_awaitDelay : Quiet (awaitDelay D) := by
  refine (Guarantees.gets _).bind fun p => Guarantees.ite (Guarantees.pure _) ?_
  exact (quiet_ask _).bind fun polls => Guarantees.loop (fun _ =>
    (quiet_ask _).bind fun _ => Guarantees.require _ _) polls ()

theorem quiet_setPinChecks (key : P256PublicKey) (newPinEnc pinAuth : Bytes) :
    Quiet (setPinChecks D key newPinEnc pinAuth) := by
  refine (Guarantees.gets _).bind fun _ => (Guarantees.require _ _).bind fun _ => ?_
  refine (quiet_sharedSecretFor key).bind fun ss => ?_
  refine ((quiet_hmacSha256 _ _).orFail _).bind fun _ => (Guarantees.require _ _).bind fun _ => ?_
  exact quiet_pinFromPadded ss newPinEnc

section CheckPinHash

variable {w : World}

/-- Memory after a retry is spent on a comparison against `hash`. -/
def spent (w : World) (hash : Block 16) : World :=
  w.withPin { hash := some hash, retries := w.store.pin.retries - 1 }

/-- The world after a comparison: the spent retry is on disk. -/
def compared (w : World) (hash : Block 16) (e : Env) (equal : Bool) : World :=
  ((spent w hash).flushed .setPin e true).emits [.pinCompared hash equal]

/-- The world with another PIN manager. -/
def withManager (w : World) (p : PinManager) : World := { w with pin := p }

/-- **What `check_pin_hash` can do.** It refuses without a comparison; or it spends a retry
and cannot persist that; or it persists it and compares. After a mismatch the token is gone;
after a match the counter may have been restored, in memory at least. -/
theorem run_checkPinHash {ss : SharedSecret} {pinHashEnc : Bytes} {Q : Unit → World → Prop}
    {E : Status → World → Prop} {C : World → Prop}
    (hrefuse : ∀ r e, E r (w.withEnv e)) (hC : ∀ e, C (w.withEnv e))
    (hspent : ∀ hash e, w.store.pin.hash = some hash → w.store.pin.retries ≠ 0 →
      E .other ((spent w hash).flushed .setPin e false) ∧ C ((spent w hash).withEnv e))
    (hwrong : ∀ hash e p e' r, w.store.pin.hash = some hash → w.store.pin.retries ≠ 0 →
      p.token = none →
      E r (withManager ((compared w hash e false).withEnv e') p) ∧
        C (withManager ((compared w hash e false).withEnv e') p))
    (hright : ∀ hash e, w.store.pin.hash = some hash → w.store.pin.retries ≠ 0 →
      let w' := withManager (compared w hash e true) { w.pin with consecutiveFailures := 0 }
      Q () w' ∧ ∀ e',
        (∀ ok, Q () ((w'.withPin ⟨some hash, kMaxRetries⟩).flushed .setPin e' ok)) ∧
          C ((w'.withPin ⟨some hash, kMaxRetries⟩).withEnv e')) :
    (checkPinHash D ss pinHashEnc).Run w Q E C := by
  rw [checkPinHash, run_bind, run_gets]
  rcases hh : w.store.pin.hash with _ | hash
  · exact hrefuse _ w.env
  dsimp only
  rw [run_bind, run_require]
  refine ⟨fun hr => ?_, fun _ => hrefuse _ w.env⟩
  have hr0 : w.store.pin.retries ≠ 0 := by simpa using hr
  rw [run_bind]
  refine quiet_awaitDelay.run_of (fun _ e => ?_) hrefuse hC
  rw [run_bind, run_orFail]
  refine (quiet_pin2Decrypt _ _).run_of (fun got e => ?_) (fun _ => hrefuse _) hC
  rw [run_bind, run_require]
  refine ⟨fun _ => ?_, fun _ => hrefuse _ e⟩
  rw [run_bind, run_orFail]
  refine Store.run_setPin (fun e => ?_) (fun e => (hspent hash e hh hr0).1)
    fun e => (hspent hash e hh hr0).2
  rw [run_bind, comparePinHash, run_bind, run_emit]
  rcases consttimeEqual got hash.bytes with _ | _
  · -- a mismatch: the key agreement is regenerated, and with it the token dropped
    rw [run_pure, if_neg (by decide), run_bind, update, run_modify, run_bind, run_attempt,
      regenerateKeyAgreement, run_bind, invalidateToken, update, run_modify, run_bind]
    refine run_ask (fun k e' => ?_) fun e' => (hwrong hash e _ e' .other hh hr0 rfl).2
    rcases k with _ | k
    · exact run_ite.mpr ⟨fun _ => (hwrong hash e _ e' _ hh hr0 rfl).1,
        fun _ => (hwrong hash e _ e' _ hh hr0 rfl).1⟩
    · exact run_ite.mpr ⟨fun _ => (hwrong hash e _ e' _ hh hr0 rfl).1,
        fun _ => (hwrong hash e _ e' _ hh hr0 rfl).1⟩
  · rw [run_pure, if_pos rfl, run_bind, update, run_modify]
    have h := hright hash e hh hr0
    refine run_ite.mpr ⟨fun _ => ?_, fun _ => h.1⟩
    rw [run_bind, run_attempt]
    exact Store.run_setPin (fun e' => (h.2 e').1 true) (fun e' => (h.2 e').1 false)
      fun e' => (h.2 e').2

end CheckPinHash

section Token

variable {w : World} {E : Status → World → Prop} {C : World → Prop}

theorem run_install {hash : Block 16} {Q : Unit → World → Prop}
    (h : ∀ e, Q () (((w.emits [.pinInstalled hash]).withPin ⟨some hash, kMaxRetries⟩).flushed
        .setPin e true) ∧
      E .other (((w.emits [.pinInstalled hash]).withPin ⟨some hash, kMaxRetries⟩).flushed
        .setPin e false) ∧
      C (((w.emits [.pinInstalled hash]).withPin ⟨some hash, kMaxRetries⟩).withEnv e)) :
    (install hash).Run w Q E C := by
  rw [install, run_bind, run_emit, run_orFail]
  exact Store.run_setPin (fun e => (h e).1) (fun e => (h e).2.1) fun e => (h e).2.2

/-- The token `verify` leaves behind. -/
def touch (D : Device) (t : PinUvAuthToken) (rpId : Bytes) (touched : ℕ) : PinUvAuthToken :=
  { t with permissionsRpId := some rpId, expiry := touched + D.pinTokenIdleTimeout }

/-- **What `verify` can do.** It refuses, and an expired token is dropped on the way; or the
parameter is the MAC of the client data hash under the live token, which has the permission
and is not bound to another RP, and is bound to this one from now on. -/
theorem run_verify {param : Bytes} {protocol : UInt64} {clientDataHash : Block 32}
    {permission : UInt8} {rpId : Bytes} {Q : Bool → World → Prop}
    (hrefuse : ∀ r e, E r (w.withEnv e))
    (hexpired : ∀ r e, E r (withManager (w.withEnv e) { w.pin with token := none }))
    (hok : ∀ t e now touched, w.pin.token = some t → now ≤ t.expiry →
      param = (D.provider.hmacSha256 t.bytes.bytes clientDataHash.bytes).bytes →
      t.permissions &&& permission ≠ 0 → (∀ r, t.permissionsRpId = some r → r = rpId) →
      Q true ((withManager (w.withEnv e)
        { w.pin with token := some (touch D t rpId touched) }).emits
        [.tokenVerified t.bytes param clientDataHash permission rpId now touched]))
    (hC : ∀ e, C (w.withEnv e)) :
    (verify D param protocol clientDataHash permission rpId).Run w Q E C := by
  rw [verify, run_bind, run_require]
  refine ⟨fun _ => ?_, fun _ => hrefuse _ w.env⟩
  rw [run_bind, run_gets]
  rcases ht : w.pin.token with _ | t
  · exact hrefuse _ w.env
  dsimp only
  rw [run_bind]
  refine run_ask (fun now e => ?_) hC
  -- an expired token is dropped; a token that does not match is kept
  refine run_ite.mpr ⟨fun _ => hexpired _ e, fun hnow => ?_⟩
  rw [run_bind, run_orFail, pin2Authenticate, hmacSha256, run_bind]
  refine run_ask (fun ok e => ?_) hC
  rw [run_bind, run_require]
  refine ⟨fun _ => ?_, fun _ => hrefuse _ e⟩
  rw [run_pure, run_bind, run_require]
  refine ⟨fun hmac => ?_, fun _ => hrefuse _ e⟩
  rw [run_bind, run_require]
  refine ⟨fun hperm => ?_, fun _ => hrefuse _ e⟩
  rw [run_bind, run_require]
  refine ⟨fun hrp => ?_, fun _ => hrefuse _ e⟩
  rw [run_bind]
  refine run_ask (fun touched e => ?_) hC
  refine hok t e now touched ht (not_lt.mp hnow) ?_ (by simpa using hperm) fun r hr => ?_
  · simpa [consttimeEqual] using (of_decide_eq_true hmac).symm
  · simpa [hr] using hrp

end Token

end PinManager

end Swpasskey
