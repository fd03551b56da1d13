import Swpasskey.Ctap.Frames
import Swpasskey.Ctap.Reliable

/-!
# The PIN as a lock

What clientPIN is for, without its cryptography: a lock with a secret digest, a number of
tries, and a token for whoever knows the secret (`PinLock`). A platform that talks to the
authenticator, a handshake and a command for each wish, gets what the lock gives, and leaves
the authenticator as the lock is left (`converse_refines`); this goes on for any sequence of
wishes (`converses_refine`).
-/

namespace Swpasskey

open Proc

/-! ### The lock -/

/-- A lock with a PIN. -/
structure PinLock where
  digest : Option (Block 16)
  retries : UInt8
  token : Option PinUvAuthToken
  deriving DecidableEq

/-- What a platform gets. -/
inductive PinVerdict
  | done
  | retries (n : UInt8)
  | token (bytes : Bytes)
  /-- The parameter was accepted. -/
  | accepted
  | refused (s : Status)
  deriving DecidableEq

namespace PinLock

open PinManager

/-- One try: a wrong one is spent and takes the token along, a right one gives all tries
back. -/
def check (l : PinLock) (d : Block 16) : Option Status × PinLock :=
  match l.digest with
  | none => (some .pinNotSet, l)
  | some d' =>
    if l.retries = 0 then (some .pinBlocked, l)
    else if d = d' then (none, { l with retries := kMaxRetries })
    else
      (some (if l.retries - 1 = 0 then .pinBlocked else .pinInvalid),
        { l with retries := l.retries - 1, token := none })

/-- The permissions and the RP of a token, or why there is none. -/
def grant (perms : Option UInt64) (rpId : Option Bytes) : Except Status (UInt8 × Option Bytes) :=
  match perms with
  | none => .ok (kPermMc ||| kPermGa, none)
  | some p =>
    if p = 0 ∨ p > 0xFF then .error .invalidParameter
    else if p.toUInt8 &&& ~~~kSupportedPerms ≠ 0 then .error .unauthorizedPermission
    else if p.toUInt8 &&& kPermMc ≠ 0 ∧ rpId.isNone then .error .unauthorizedPermission
    else .ok (p.toUInt8, rpId)

variable (D : Device)

/-- A new PIN. -/
def change (l : PinLock) (pin : Bytes) (keepToken : Bool) : PinVerdict × PinLock :=
  if pinPolicy (front pin) then
    (.done, ⟨some (leftHash D (front pin)), kMaxRetries, if keepToken then l.token else none⟩)
  else (.refused .pinPolicyViolation, l)

/-- A token is used: it must be the current one and live, allow getAssertions, and belong to
the RP or to none yet. -/
def use (e : Env) (l : PinLock) (tok clientDataHash : Block 32) (rpId : Bytes) :
    PinVerdict × PinLock :=
  match l.token with
  | none => (.refused .pinAuthInvalid, l)
  | some t =>
    if e.steadyClock.head > t.expiry then (.refused .pinAuthInvalid, { l with token := none })
    else if PinClient.auth D t.bytes.bytes clientDataHash.bytes ≠
        PinClient.auth D tok.bytes clientDataHash.bytes then (.refused .pinAuthInvalid, l)
    else if t.permissions &&& kPermGa = 0 then (.refused .unauthorizedPermission, l)
    else if t.permissionsRpId.all (· = rpId) then
      (.accepted, { l with token := some (touch D t rpId e.steadyClock.tail.head) })
    else (.refused .pinAuthInvalid, l)

/-- What a wish does. The environment gives the bytes of a new token, and the time. -/
def step (e : Env) (l : PinLock) : PinWish → PinVerdict × PinLock
  | .getRetries => (.retries l.retries, l)
  | .setPin pin => if l.digest.isSome then (.refused .pinAuthInvalid, l) else l.change D pin true
  | .changePin old new =>
    match l.check (leftHash D old) with
    | (some s, l') => (.refused s, l')
    | (none, l') => l'.change D new false
  | .token pin perms rpId =>
    match grant perms rpId with
    | .error s => (.refused s, l)
    | .ok (permissions, permissionsRpId) =>
      match l.check (leftHash D pin) with
      | (some s, l') => (.refused s, l')
      | (none, l') =>
        (.token (e.fresh 32).bytes, { l' with
          token := some {
            bytes := e.fresh 32
            permissions
            permissionsRpId
            expiry := e.steadyClock.head + D.pinTokenIdleTimeout } })
  | .present tok clientDataHash rpId => l.use D e tok clientDataHash rpId

/-- Wishes one after the other. -/
def run (l : PinLock) : List (PinWish × PinRound) → List PinVerdict × PinLock
  | [] => ([], l)
  | (x, r) :: rest =>
    ((l.step D r.env' x).1 :: ((l.step D r.env' x).2.run rest).1,
      ((l.step D r.env' x).2.run rest).2)

end PinLock

/-! ### The conversation -/

/-- The lock of an authenticator. -/
def World.lock (w : World) : PinLock := ⟨w.store.pin.hash, w.store.pin.retries, w.pin.token⟩

namespace PinClient

variable (D : Device)

/-- What the platform makes of the answer to a command. A getAssertion that was not refused
for its parameter has accepted it. -/
def verdict (ss : SharedSecret) (o : Outcome Refusal Answer) : PinWish → PinVerdict
  | .present _ _ _ =>
    match o with
    | .err (.status s) =>
      if s = .pinAuthInvalid ∨ s = .unauthorizedPermission then .refused s else .accepted
    | _ => .accepted
  | _ =>
    match o with
    | .ok (.cbor .empty) => .done
    | .ok (.cbor (.retries n)) => .retries n
    | .ok (.cbor (.pinToken enc)) => .token (ss.decrypt D.provider enc)
    | .err (.status s) => .refused s
    | _ => .refused .other

/-- The handshake, and the command of a wish under the secret it gave. -/
def converse (w : World) (x : PinWish) (r : PinRound) : PinVerdict × World :=
  let w' := w.call D handshake r.env
  match (answer D handshake (w.begin handshake r.env)).1 with
  | .ok (.cbor (.keyAgreement pub)) =>
    match D.provider.sharedWith (some r.key) pub with
    | none => (.refused .other, w')
    | some ss =>
      let c := command D ss r x
      (verdict D ss (answer D c (w'.begin c r.env')).1 x, w'.call D c r.env')
  | _ => (.refused .other, w')

/-- Conversations one after the other. -/
def converses (w : World) : List (PinWish × PinRound) → List PinVerdict × World
  | [] => ([], w)
  | (x, r) :: rest =>
    ((converse D w x r).1 :: (converses (converse D w x r).2 rest).1,
      (converses (converse D w x r).2 rest).2)

end PinClient

/-! ### The commands of the authenticator -/

section Commands

open PinManager

variable {D : Device} {keys : Set EcdhKey} {w : World}

/-- The key-agreement key is one of `keys`. -/
def World.Agrees (keys : Set EcdhKey) (w : World) : Prop := ∃ ka ∈ keys, w.pin.ka = some ka

/-- What the parts of a command see: nothing fails, and the key agreement works. -/
structure World.Ready (keys : Set EcdhKey) (w : World) : Prop where
  env : w.env.Reliable keys
  agrees : w.Agrees keys

theorem World.Ready.spent (h : w.Ready keys) {e : Env} (he : w.env.Spent e) :
    (w.withEnv e).Ready keys := ⟨h.env.later he.later, h.agrees⟩

/-- **A try at the PIN** is one at the lock. -/
theorem run_checkPinHash_lock (h : w.Ready keys) {ss : SharedSecret} {enc : Bytes} {d : Block 16}
    (hlen : enc.length = 32) (hdec : ss.decrypt D.provider enc = d.bytes) :
    (checkPinHash D ss enc).Run w
      (fun _ w' => w.lock.check d = (none, w'.lock) ∧ w'.Ready keys ∧ w.env.Spent w'.env)
      (fun s w' => w.lock.check d = (some s, w'.lock) ∧ w'.Ready keys) fun _ => False := by
  rw [checkPinHash, run_bind, run_gets]
  rcases hh : w.store.pin.hash with _ | hash
  · exact ⟨by rw [PinLock.check, World.lock, hh], h⟩
  dsimp only
  rw [run_bind, run_require]
  refine ⟨fun hr => ?_, fun hr => ⟨?_, h⟩⟩
  · have hr0 : w.store.pin.retries ≠ 0 := by simpa using hr
    have hcheck : w.lock.check d = if d = hash then (none, { w.lock with retries := kMaxRetries })
        else (some (if w.store.pin.retries - 1 = 0 then .pinBlocked else .pinInvalid),
          { w.lock with retries := w.store.pin.retries - 1, token := none }) := by
      rw [PinLock.check, World.lock, hh]
      exact if_neg hr0
    refine (computes_awaitDelay h.env).run fun e he => ?_
    refine ((computes_pin2Decrypt (h.spent he).env ss (by omega) (by omega)).orFail _).run
      fun e' he' => ?_
    rw [hdec, run_bind, run_require, Block.length_bytes]
    refine ⟨fun _ => ?_, fun hfalse => by simp at hfalse⟩
    -- the try is spent and saved before the comparison
    have hspent : w.env.Spent e' := he.trans he'
    rw [run_bind, run_orFail]
    refine run_setPin_reliable (h.spent hspent).env fun e₂ he₂ => ?_
    have hspent₂ : w.env.Spent e₂ := hspent.trans he₂
    have henv₂ : e₂.Reliable keys := (h.spent hspent₂).env
    rw [run_bind, comparePinHash, run_bind, run_emit, run_pure, consttimeEqual, hcheck]
    by_cases hd : d = hash
    · rw [decide_eq_true (congrArg Block.bytes hd), if_pos rfl, if_pos hd, run_bind, update,
        run_modify]
      refine run_ite.mpr ⟨fun _ => ?_, fun hall => ?_⟩
      · refine run_bind.mpr (run_attempt.mpr (run_setPin_reliable (K := keys) henv₂
          fun e₃ he₃ => ⟨?_, ⟨henv₂.later he₃.later, h.agrees⟩, hspent₂.trans he₃⟩))
        rw [World.lock, hh]
        rfl
      · refine ⟨?_, ⟨henv₂, h.agrees⟩, hspent₂⟩
        have hfull : w.store.pin.retries - 1 = kMaxRetries := not_not.mp hall
        rw [← hfull, World.lock, hh]
        rfl
    · have hne : decide (d.bytes = hash.bytes) = false :=
        decide_eq_false fun heq => hd (Block.ext heq)
      rw [hne, if_neg (by decide), if_neg hd, run_bind, update, run_modify, run_bind, run_attempt,
        regenerateKeyAgreement, run_bind, invalidateToken, update, run_modify, run_bind]
      refine run_askEcdhKey henv₂ fun k hk e₃ he₃ => ?_
      refine run_ite.mpr ⟨fun hz => ⟨?_, he₃, k, hk, rfl⟩, fun hz => ⟨?_, he₃, k, hk, rfl⟩⟩
      · rw [if_pos hz, World.lock, hh]
        rfl
      · rw [if_neg hz, World.lock, hh]
        rfl
  · have hzero : w.store.pin.retries = 0 := by simpa using hr
    rw [PinLock.check, World.lock, hh]
    simp [hzero]

/-- A command does to the authenticator what the wish does to the lock, and its answer means
what the lock gives. -/
def Meets (D : Device) (keys : Set EcdhKey) (ss : SharedSecret) (x : PinWish) (w : World)
    (m : Cmd Status Reply) : Prop :=
  m.Run w
    (fun r w' => w.lock.step D w.env x = (PinClient.verdict D ss (.ok (.cbor r)) x, w'.lock) ∧
      w'.Ready keys)
    (fun s w' => w.lock.step D w.env x =
      (PinClient.verdict D ss (.err (.status s)) x, w'.lock) ∧ w'.Ready keys)
    fun _ => False

theorem run_install_lock (h : w.Ready keys) (hash : Block 16) {E : Status → World → Prop}
    {C : World → Prop} : (install hash).Run w (fun _ w' =>
      w'.lock = ⟨some hash, kMaxRetries, w.pin.token⟩ ∧ w'.Ready keys) E C := by
  rw [install, run_bind, run_emit, run_orFail]
  exact run_setPin_reliable (w := w.emits [.pinInstalled hash]) h.env fun e he =>
    ⟨rfl, h.env.later he.later, h.agrees⟩

section Secret

variable {ss : SharedSecret} (hsound : D.provider.Sound keys)

include hsound

/-- A padded PIN is decrypted, cut at its first zero byte and held against the policy. -/
theorem run_pinFromPadded_lock (h : w.Ready keys) (iv : Block 16) {pin : Bytes}
    (hpin : pin.length ≤ 64) :
    (pinFromPadded D ss (ss.encrypt D.provider iv (padded pin))).Run w
      (fun hash w' => pinPolicy (front pin) = true ∧ hash = leftHash D (front pin) ∧
        ∃ e, w.env.Spent e ∧ w' = w.withEnv e)
      (fun s w' => pinPolicy (front pin) = false ∧ s = .pinPolicyViolation ∧
        ∃ e, w.env.Spent e ∧ w' = w.withEnv e) fun _ => False := by
  have hmod : (padded pin).length % 16 = 0 := by rw [PinClient.length_padded hpin]
  have hcarries : CarriesPin D ss (ss.encrypt D.provider iv (padded pin)) pin :=
    ⟨PinClient.length_pinEnc hsound ss iv hpin, ss.decrypt_encrypt hsound.inverts iv hmod⟩
  rw [pinFromPadded_eq hcarries]
  refine (computes_askCrypto h.env).run fun e he => run_bind.mpr ?_
  refine run_require.mpr ⟨fun _ => ?_, fun hfalse => by cases hfalse⟩
  rw [hashPin, run_bind, run_require]
  exact ⟨fun hpolicy => ⟨hpolicy, rfl, e, he, rfl⟩, fun hpolicy => ⟨hpolicy, rfl, e, he, rfl⟩⟩

variable {ka : EcdhKey} {key : P256PublicKey} {z : Block 32} {x : PinRound}

theorem meets_setPin (h : w.Ready keys) (hka : w.pin.ka = some ka)
    (hz : D.provider.sharedSecretX ka key = some z) (hss : ss = D.provider.derived z)
    (iv : Block 16) {pin : Bytes} (hpin : pin.length ≤ 64) :
    Meets D keys ss (.setPin pin) w (PinManager.setPin D key
      (ss.encrypt D.provider iv (padded pin))
      (PinClient.auth D ss.hmacKey.bytes (ss.encrypt D.provider iv (padded pin)))) := by
  subst hss
  refine run_bind.mpr (run_bind.mpr (run_gets.mpr (run_bind.mpr (run_require.mpr
    ⟨fun hunset => ?_, fun hset => ⟨?_, h⟩⟩))))
  · have hdigest : w.lock.digest.isSome = false := (Bool.not_eq_true' _).mp hunset
    have hstep : w.lock.step D w.env (.setPin pin) = w.lock.change D pin true := by
      rw [PinLock.step, hdigest]
      exact if_neg Bool.false_ne_true
    refine (computes_sharedSecretFor h.env hka hz).run fun e he => ?_
    refine ((computes_hmacSha256 (h.spent he).env _ _).orFail _).run fun e' he' => ?_
    have hspent : w.env.Spent e' := he.trans he'
    refine run_bind.mpr (run_require.mpr ⟨fun _ => ?_, fun hfalse => by simp [consttimeEqual,
      PinClient.auth] at hfalse⟩)
    refine (run_pinFromPadded_lock hsound (h.spent hspent) iv hpin).mono ?_ ?_ fun _ => id
    · rintro hash _ ⟨hpolicy, rfl, e₂, he₂, rfl⟩
      refine run_bind.mpr ((run_install_lock ((h.spent hspent).spent he₂) _).weaken ?_)
      rintro _ w' ⟨hlock, hready⟩
      refine ⟨?_, hready.env, hready.agrees⟩
      rw [hstep, PinLock.change, if_pos hpolicy]
      exact congrArg (Prod.mk _) hlock.symm
    · rintro s _ ⟨hpolicy, rfl, e₂, he₂, rfl⟩
      refine ⟨?_, (h.spent hspent).spent he₂⟩
      rw [hstep, PinLock.change, hpolicy]
      rfl
  · have hdigest : w.lock.digest.isSome = true := (Bool.not_eq_false' _).mp hset
    rw [PinLock.step, if_pos hdigest]
    rfl

/-- The encrypted hash of a PIN is decrypted. -/
theorem decrypt_hash (ss : SharedSecret) (iv : Block 16) (pin : Bytes) :
    ss.decrypt D.provider (ss.encrypt D.provider iv (leftHash D pin).bytes) =
      (leftHash D pin).bytes :=
  ss.decrypt_encrypt hsound.inverts iv (by rw [Block.length_bytes])

theorem meets_changePin (h : w.Ready keys) (hka : w.pin.ka = some ka)
    (hz : D.provider.sharedSecretX ka key = some z) (hss : ss = D.provider.derived z)
    (iv iv' : Block 16) {old new : Bytes} (hnew : new.length ≤ 64) :
    Meets D keys ss (.changePin old new) w (PinManager.changePin D key
      (ss.encrypt D.provider iv' (leftHash D old).bytes) (ss.encrypt D.provider iv (padded new))
      (PinClient.auth D ss.hmacKey.bytes (ss.encrypt D.provider iv (padded new) ++
        ss.encrypt D.provider iv' (leftHash D old).bytes))) := by
  subst hss
  have hlen := PinClient.length_hashEnc hsound (D.provider.derived z) iv' old
  have hdec := decrypt_hash hsound (D.provider.derived z) iv' old
  refine run_bind.mpr ?_
  refine (computes_sharedSecretFor h.env hka hz).run fun e he => ?_
  refine ((computes_hmacSha256 (h.spent he).env _ _).orFail _).run fun e' he' => ?_
  have hspent : w.env.Spent e' := he.trans he'
  refine run_bind.mpr (run_require.mpr ⟨fun _ => ?_, fun hfalse => by simp [consttimeEqual,
    PinClient.auth] at hfalse⟩)
  refine run_bind.mpr ((run_checkPinHash_lock (h.spent hspent) hlen hdec).mono ?_ ?_
    fun _ => id)
  · rintro _ w₁ ⟨hcheck, hready, -⟩
    have hstep : w.lock.step D w.env (.changePin old new) = w₁.lock.change D new false := by
      rw [PinLock.step, show w.lock.check _ = _ from hcheck]
    refine run_bind.mpr ((run_pinFromPadded_lock hsound hready iv hnew).mono ?_ ?_
      fun _ => id)
    · rintro hash _ ⟨hpolicy, rfl, e₂, he₂, rfl⟩
      refine run_bind.mpr ((run_install_lock (hready.spent he₂) _).weaken ?_)
      rintro _ w' ⟨hlock, hready'⟩
      refine ⟨?_, hready'.env, hready'.agrees⟩
      rw [hstep, PinLock.change, if_pos hpolicy, if_neg Bool.false_ne_true]
      exact congrArg (fun l : PinLock => (PinVerdict.done, { l with token := none })) hlock.symm
    · rintro s _ ⟨hpolicy, rfl, e₂, he₂, rfl⟩
      refine ⟨?_, hready.spent he₂⟩
      rw [hstep, PinLock.change, hpolicy]
      rfl
  · rintro s w₁ ⟨hcheck, hready⟩
    refine ⟨?_, hready⟩
    rw [PinLock.step, show w.lock.check _ = _ from hcheck]
    rfl

theorem meets_getToken (h : w.Ready keys) (hka : w.pin.ka = some ka)
    (hz : D.provider.sharedSecretX ka key = some z) (hss : ss = D.provider.derived z)
    (iv : Block 16) {pin : Bytes} {perms : Option UInt64} {rp : Option Bytes} {permissions : UInt8}
    {permissionsRpId : Option Bytes}
    (hgrant : PinLock.grant perms rp = .ok (permissions, permissionsRpId)) :
    Meets D keys ss (.token pin perms rp) w (getToken D key
      (ss.encrypt D.provider iv (leftHash D pin).bytes) permissions permissionsRpId) := by
  subst hss
  have hlen := PinClient.length_hashEnc hsound (D.provider.derived z) iv pin
  have hdec := decrypt_hash hsound (D.provider.derived z) iv pin
  refine (computes_sharedSecretFor h.env hka hz).run fun e he => ?_
  refine run_bind.mpr ((run_checkPinHash_lock (h.spent he) hlen hdec).mono ?_ ?_
    fun _ => id)
  · rintro _ w₁ ⟨hcheck, hready, hspent⟩
    have hstep : w.lock.step D w.env (.token pin perms rp) =
        (.token (w.env.fresh 32).bytes, { w₁.lock with
          token := some {
            bytes := w.env.fresh 32
            permissions
            permissionsRpId
            expiry := w.env.steadyClock.head + D.pinTokenIdleTimeout } }) := by
      rw [PinLock.step, hgrant]
      dsimp only
      rw [show w.lock.check _ = _ from hcheck]
    -- the check has taken no random bytes and no time
    have hsame : w₁.env.fresh 32 = w.env.fresh 32 ∧ w₁.env.steadyClock = w.env.steadyClock := by
      have hall := he.trans hspent
      exact ⟨by rw [Env.fresh, hall.random, Env.fresh], hall.steadyClock⟩
    refine run_bind.mpr (run_random hready.env fun e₂ he₂ hclock => run_bind.mpr ?_)
    rw [hsame.1]
    refine run_bind.mpr (run_steadyNow (w := w₁.withEnv e₂) he₂ fun e₃ he₃ _ => ?_)
    refine run_bind.mpr (run_modify.mpr (run_emit.mpr (run_bind.mpr (run_attempt.mpr ?_))))
    refine run_pin2Encrypt he₃ _ (by rw [Block.length_bytes]) fun iv' e₄ he₄ => ?_
    have hlen' : (w.env.fresh 32).bytes.length % 16 = 0 := by rw [Block.length_bytes]
    have htoken := (D.provider.derived z).decrypt_encrypt hsound.inverts iv' hlen'
    refine ⟨hstep.trans (Prod.ext (congrArg PinVerdict.token htoken.symm) ?_), he₄, hready.agrees⟩
    rw [← hsame.2, ← hclock]
    rfl
  · rintro s w₁ ⟨hcheck, hready⟩
    refine ⟨?_, hready⟩
    rw [PinLock.step, hgrant]
    dsimp only
    rw [show w.lock.check _ = _ from hcheck]
    rfl

end Secret

/-- What the permissions variant checks first is what the lock grants. -/
theorem meets_token {ss : SharedSecret} (h : w.Ready keys) {key : P256PublicKey} {enc pin : Bytes}
    {perms : UInt64} {rp : Option Bytes}
    (hget : ∀ permissions permissionsRpId,
      PinLock.grant (some perms) rp = .ok (permissions, permissionsRpId) →
        Meets D keys ss (.token pin (some perms) rp) w
          (getToken D key enc permissions permissionsRpId)) :
    Meets D keys ss (.token pin (some perms) rp) w
      (getTokenWithPermissions D key enc perms rp) := by
  have hrefused : ∀ s, PinLock.grant (some perms) rp = .error s →
      w.lock.step D w.env (.token pin (some perms) rp) = (.refused s, w.lock) := by
    intro s hs
    rw [PinLock.step, hs]
  have hgrant : PinLock.grant (some perms) rp =
      if perms = 0 ∨ perms > 0xFF then .error .invalidParameter
      else if perms.toUInt8 &&& ~~~kSupportedPerms ≠ 0 then .error .unauthorizedPermission
      else if perms.toUInt8 &&& kPermMc ≠ 0 ∧ rp.isNone then .error .unauthorizedPermission
      else .ok (perms.toUInt8, rp) := rfl
  refine run_bind.mpr (run_require.mpr ⟨fun hrange => ?_, fun hrange => ⟨hrefused _ ?_, h⟩⟩)
  · rw [if_neg (by simpa using hrange)] at hgrant
    refine run_bind.mpr (run_require.mpr ⟨fun hbits => ?_, fun hbits => ⟨hrefused _ ?_, h⟩⟩)
    · rw [if_neg (not_not.mpr (of_decide_eq_true hbits))] at hgrant
      refine run_bind.mpr (run_require.mpr ⟨fun hbound => ?_, fun hbound => ⟨hrefused _ ?_, h⟩⟩)
      · refine hget _ _ ?_
        rw [hgrant, if_neg (by simpa [or_iff_not_imp_left, Option.isSome_iff_ne_none] using hbound)]
      · rw [hgrant, if_pos (by simpa using hbound)]
    · rw [hgrant, if_pos (of_decide_eq_false hbits)]
  · rw [hgrant, if_pos (by simpa [or_iff_not_imp_left] using hrange)]

/-! ### getAssertion with a token -/

/-- What is left of a command once its parameter is accepted: it ends, leaves the PIN and the
token alone, and is not refused for its parameter any more. -/
def Aside {α : Type} (m : Cmd Status α) : Prop :=
  ∀ w : World, w.env.crash = none → m.Run w
    (fun _ w' => w.env.Later w'.env ∧ w'.lock = w.lock ∧ w'.pin.ka = w.pin.ka)
    (fun s w' => (w.env.Later w'.env ∧ w'.lock = w.lock ∧ w'.pin.ka = w.pin.ka) ∧
      s ≠ .pinAuthInvalid ∧ s ≠ .unauthorizedPermission)
    fun _ => False

namespace Aside

variable {α β : Type} {m : Cmd Status α}

theorem pure (a : α) : Aside (pure a : Cmd Status α) := fun w _ => ⟨.refl w.env, rfl, rfl⟩

theorem throw {s : Status} (h : s ≠ .pinAuthInvalid ∧ s ≠ .unauthorizedPermission) :
    Aside (throw s : Cmd Status α) := fun w _ => ⟨⟨.refl w.env, rfl, rfl⟩, h⟩

theorem require (c : Bool) {s : Status} (h : s ≠ .pinAuthInvalid ∧ s ≠ .unauthorizedPermission) :
    Aside (require c s) := by
  cases c
  · exact throw h
  · exact pure ()

theorem modify {f : World → World}
    (h : ∀ w, (f w).env = w.env ∧ (f w).lock = w.lock ∧ (f w).pin.ka = w.pin.ka) :
    Aside (modify f : Cmd Status Unit) :=
  fun w _ => ⟨(h w).1 ▸ .refl w.env, (h w).2⟩

theorem ask {f : Env → α × Env} [Advances f] : Aside (ask f : Cmd Status α) := fun w hw => by
  rw [Run, ask_apply_alive f hw]
  exact ⟨Advances.later w.env, rfl, rfl⟩

theorem bind {f : α → Cmd Status β} (hm : Aside m) (hf : ∀ a, Aside (f a)) : Aside (m >>= f) := by
  intro w hw
  refine run_bind.mpr ((hm w hw).weaken ?_)
  rintro a w' ⟨hlater, hlock, hka⟩
  exact (hf a w' (hlater.crash hw)).mono
    (fun _ _ h => ⟨hlater.trans h.1, h.2.1.trans hlock, h.2.2.trans hka⟩)
    (fun _ _ h => ⟨⟨hlater.trans h.1.1, h.1.2.1.trans hlock, h.1.2.2.trans hka⟩, h.2⟩) fun _ => id

theorem gets_bind {f : World → α} {g : α → Cmd Status β} (h : ∀ a, Aside (g a)) :
    Aside (gets f >>= g) := fun w hw => h (f w) w hw

theorem ite {c : Prop} [Decidable c] {m' : Cmd Status α} (hm : Aside m) (hm' : Aside m') :
    Aside (if c then m else m') := by
  split
  · exact hm
  · exact hm'

theorem orOther (hm : Aside m) : Aside (m.orFail .other) := fun w hw =>
  run_orFail.mpr ((hm w hw).mono (fun _ _ => id) (fun _ _ h => ⟨h.1, by decide⟩) fun _ => id)

end Aside

section Assert

theorem aside_confirmAssertion (q : GetAssertionRequest) (rpIdHash : Block 32)
    (first : Credential) : Aside (confirmAssertion q rpIdHash first) := by
  refine Aside.ite ?_ (Aside.pure _)
  refine Aside.bind (Aside.ask.bind fun c => Aside.ite (Aside.pure _) (Aside.ask.bind fun d =>
    Aside.bind (Aside.modify fun _ => ⟨rfl, rfl, rfl⟩) fun _ => Aside.pure _)) fun d => ?_
  cases d with
  | allow => exact Aside.pure _
  | deny => exact Aside.throw (by decide)
  | timeout => exact Aside.throw (by decide)
  | cancelled => exact Aside.throw (by decide)

theorem aside_openList (q : GetAssertionRequest) (rpIdHash : Block 32) (flags : UInt8)
    (rest : List Credential) : Aside (openList q rpIdHash flags rest) :=
  Aside.ite (Aside.pure _) (Aside.ask.bind fun _ => Aside.modify fun _ => ⟨rfl, rfl, rfl⟩)

theorem aside_loadKey (c : Credential) : Aside (loadKey D c) :=
  Aside.ite
    ((Aside.require _ (by decide)).bind fun _ => Aside.ask.bind fun _ =>
      (Aside.require _ (by decide)).bind fun _ => Aside.pure _)
    ((Aside.require _ (by decide)).bind fun _ => Aside.ask.bind fun _ =>
      (Aside.require _ (by decide)).bind fun _ => Aside.pure _)

theorem aside_updateCountAndUsed (credId : Bytes) (n : UInt32) (t : UInt64) :
    Aside (Store.updateCountAndUsed credId n t) := by
  refine Aside.gets_bind fun s => ?_
  rcases s.findById credId with _ | c
  · exact Aside.throw (by decide)
  refine Aside.bind (Aside.modify fun _ => ⟨rfl, rfl, rfl⟩) fun _ => Aside.ask.bind fun ok => ?_
  refine Aside.bind (Aside.modify fun _ => ⟨rfl, rfl, rfl⟩) fun _ => ?_
  exact Aside.ite (Aside.modify fun _ => ⟨rfl, rfl, rfl⟩) (Aside.throw (by decide))

/-- Without hmac-secret nothing is asked of the PIN manager. -/
theorem aside_buildAssertion (cred : Credential) (rpIdHash clientDataHash : Block 32)
    (flags : UInt8) (bump : Bool) (number : Option ℕ) :
    Aside (buildAssertion D cred rpIdHash clientDataHash flags bump {} number) := by
  have hnone : assertionExtensions D cred flags {} = pure [] := rfl
  rw [buildAssertion, hnone]
  refine (aside_loadKey cred).bind fun key => (Aside.pure _).bind fun extensions => ?_
  refine Aside.bind (Aside.ask.bind fun f => ?_) fun sig => ?_
  · rcases f key _ with _ | sig
    · exact Aside.throw (by decide)
    · exact Aside.pure _
  · exact Aside.ite (Aside.ask.bind fun now => (aside_updateCountAndUsed _ _ _).orOther.bind
      fun _ => Aside.pure _) (Aside.pure _)

theorem aside_assertFirst {q : GetAssertionRequest} (hext : q.ext = {}) (rpIdHash : Block 32)
    (uv : Bool) (first : Credential) (rest : List Credential) :
    Aside (assertFirst D q rpIdHash uv first rest) := by
  rw [assertFirst, hext]
  refine (aside_confirmAssertion _ _ _).bind fun _ => (aside_openList _ _ _ _).bind fun _ => ?_
  intro w hw
  -- a failure drops the list and is handed on
  exact run_bind.mpr (run_attempt.mpr ((aside_buildAssertion first rpIdHash q.clientDataHash
    (assertionFlags uv q.up) q.up (some (rest.length + 1)) w hw).mono (fun _ _ h => h)
      (fun _ _ h => h) fun _ => id))

end Assert

/-- **The check of a parameter** is a use of the lock's token. -/
theorem run_verify_lock (h : w.Ready keys) (tok clientDataHash : Block 32) (rp : Bytes) :
    (verify D (PinClient.auth D tok.bytes clientDataHash.bytes) 2 clientDataHash kPermGa rp).Run w
      (fun _ w' => w.lock.use D w.env tok clientDataHash rp = (.accepted, w'.lock) ∧ w'.Ready keys)
      (fun s w' => w.lock.use D w.env tok clientDataHash rp = (.refused s, w'.lock) ∧
        (s = .pinAuthInvalid ∨ s = .unauthorizedPermission) ∧ w'.Ready keys)
      fun _ => False := by
  refine run_bind.mpr (run_require.mpr ⟨fun _ => run_bind.mpr (run_gets.mpr ?_),
    fun hfalse => by cases hfalse⟩)
  rcases ht : w.pin.token with _ | t
  · refine ⟨?_, .inl rfl, h⟩
    rw [PinLock.use, show w.lock.token = none from ht]
  have huse : w.lock.use D w.env tok clientDataHash rp =
      if w.env.steadyClock.head > t.expiry then
        (.refused .pinAuthInvalid, { w.lock with token := none })
      else if PinClient.auth D t.bytes.bytes clientDataHash.bytes ≠
          PinClient.auth D tok.bytes clientDataHash.bytes then (.refused .pinAuthInvalid, w.lock)
      else if t.permissions &&& kPermGa = 0 then (.refused .unauthorizedPermission, w.lock)
      else if t.permissionsRpId.all (· = rp) then
        (.accepted, { w.lock with token := some (touch D t rp w.env.steadyClock.tail.head) })
      else (.refused .pinAuthInvalid, w.lock) := by
    rw [PinLock.use, show w.lock.token = some t from ht]
  refine run_bind.mpr (run_steadyNow h.env fun e he hclock => run_ite.mpr
    ⟨fun hlate => ?_, fun hlate => ?_⟩)
  · refine ⟨?_, .inl rfl, he, h.agrees⟩
    rw [huse, if_pos hlate]
    rfl
  rw [if_neg hlate] at huse
  refine ((computes_hmacSha256 (w := w.withEnv e) he _ _).orFail _).run fun e₂ he₂ => ?_
  have hready : (w.withEnv e₂).Ready keys := ⟨he.later he₂.later, h.agrees⟩
  refine run_bind.mpr (run_require.mpr ⟨fun hmac => ?_, fun hmac => ⟨?_, .inl rfl, hready⟩⟩)
  · have hmatch : PinClient.auth D t.bytes.bytes clientDataHash.bytes =
        PinClient.auth D tok.bytes clientDataHash.bytes := of_decide_eq_true hmac
    rw [if_neg (not_not.mpr hmatch)] at huse
    refine run_bind.mpr (run_require.mpr ⟨fun hperm => ?_, fun hperm => ⟨?_, .inr rfl, hready⟩⟩)
    · rw [if_neg (of_decide_eq_true hperm)] at huse
      refine run_bind.mpr (run_require.mpr ⟨fun hrp => ?_, fun hrp => ⟨?_, .inl rfl, hready⟩⟩)
      · rw [if_pos hrp] at huse
        refine run_bind.mpr (run_steadyNow hready.env fun e₃ he₃ _ => ⟨?_, he₃, h.agrees⟩)
        have hnow : e₂.steadyClock.head = w.env.steadyClock.tail.head := by
          rw [he₂.steadyClock]
          exact congrArg Stream'.head hclock
        rw [huse, ← hnow]
        rfl
      · rw [huse, if_neg (by rw [hrp]; exact Bool.false_ne_true)]
        rfl
    · rw [huse, if_pos (not_not.mp (of_decide_eq_false hperm))]
      rfl
  · have hmatch : PinClient.auth D t.bytes.bytes clientDataHash.bytes ≠
        PinClient.auth D tok.bytes clientDataHash.bytes := of_decide_eq_false hmac
    rw [huse, if_pos hmatch]
    rfl

theorem meets_present {ss : SharedSecret} (h : w.Ready keys) {tok clientDataHash : Block 32}
    {rp : Bytes} (hne : rp ≠ []) (hlen : rp.length ≤ 255) :
    Meets D keys ss (.present tok clientDataHash rp) w (cmdGetAssertion D
      (PinClient.getAssertBody rp clientDataHash
        (PinClient.auth D tok.bytes clientDataHash.bytes))) := by
  have hparam : (PinClient.auth D tok.bytes clientDataHash.bytes).length = 32 :=
    PinClient.length_auth D _ _
  have hrequest := PinClient.getAssertionRequest_getAssertBody hne hlen clientDataHash
    (PinClient.auth D tok.bytes clientDataHash.bytes) (by rw [hparam]; decide)
  have hnonempty : (PinClient.auth D tok.bytes clientDataHash.bytes).isEmpty = false := by
    rw [List.isEmpty_eq_false_iff, ← List.length_pos_iff, hparam]
    decide
  refine run_bind.mpr (run_modify.mpr (run_bind.mpr ?_))
  rw [hrequest]
  refine run_pure.mpr (run_bind.mpr (run_gets.mpr (run_bind.mpr (run_bind.mpr (run_require.mpr
    ⟨fun _ => ?_, fun hfalse => by cases hfalse⟩)))))
  rw [hnonempty]
  have hready : ({ w with next := none } : World).Ready keys := ⟨h.env, h.agrees⟩
  refine (run_verify_lock hready tok clientDataHash rp).mono ?_ ?_ fun _ => id
  · rintro uv w₁ ⟨huse, hready₁⟩
    dsimp only
    rcases sortCandidates _ with _ | ⟨first, rest⟩
    · exact ⟨huse, hready₁⟩
    refine (aside_assertFirst rfl _ uv first rest w₁ hready₁.env.crash).mono ?_ ?_ fun _ => id
    · rintro r w' ⟨hlater, hlock, hka⟩
      exact ⟨hlock ▸ huse, hready₁.env.later hlater, hready₁.agrees.imp fun _ h => ⟨h.1, hka ▸ h.2⟩⟩
    · rintro s w' ⟨⟨hlater, hlock, hka⟩, hs⟩
      refine ⟨?_, hready₁.env.later hlater, hready₁.agrees.imp fun _ h => ⟨h.1, hka ▸ h.2⟩⟩
      rw [PinClient.verdict, if_neg (not_or.mpr hs), hlock]
      exact huse
  · rintro s w₁ ⟨huse, hs, hready₁⟩
    refine ⟨?_, hready₁⟩
    rw [PinClient.verdict, if_pos hs]
    exact huse

/-- **The PIN commands.** -/
theorem meets_handle {ss : SharedSecret} (hsound : D.provider.Sound keys) (h : w.Ready keys)
    {ka : EcdhKey} {z : Block 32} {r : PinRound} (hka : w.pin.ka = some ka)
    (hz : D.provider.sharedSecretX ka (D.provider.ecdhPub r.key) = some z)
    (hss : ss = D.provider.derived z) {x : PinWish} (hfits : x.Fits)
    (hx : ∀ tok clientDataHash rp, x ≠ .present tok clientDataHash rp) {body : Bytes}
    (hbody : PinClient.command D ss r x = .cbor (0x06 :: body)) :
    Meets D keys ss x w (PinManager.handle D body) := by
  rw [PinClient.command_eq D ss r hx] at hbody
  rw [PinClient.handle_command hsound ss r hfits hbody]
  cases x with
  | getRetries => exact ⟨rfl, h⟩
  | setPin pin => exact meets_setPin hsound h hka hz hss r.iv hfits
  | changePin old new => exact meets_changePin hsound h hka hz hss r.iv r.iv' hfits
  | token pin perms rp =>
    have hget : ∀ perms permissions permissionsRpId,
        PinLock.grant perms rp = .ok (permissions, permissionsRpId) →
          Meets D keys ss (.token pin perms rp) w (getToken D (D.provider.ecdhPub r.key)
            (ss.encrypt D.provider r.iv (leftHash D pin).bytes) permissions permissionsRpId) :=
      fun _ _ _ hgrant => meets_getToken hsound h hka hz hss r.iv hgrant
    rcases perms with _ | p
    · have htoken := hget none _ _ rfl
      cases rp <;> exact htoken
    · have htoken := meets_token h (hget (some p))
      cases rp <;> exact htoken
  | present tok clientDataHash rp => exact absurd rfl (hx _ _ _)

/-! ### The calls -/

theorem meets_handleCbor {ss : SharedSecret} (hsound : D.provider.Sound keys) (h : w.Ready keys)
    {ka : EcdhKey} {z : Block 32} {r : PinRound} (hka : w.pin.ka = some ka)
    (hz : D.provider.sharedSecretX ka (D.provider.ecdhPub r.key) = some z)
    (hss : ss = D.provider.derived z) {x : PinWish} (hfits : x.Fits) {request : Bytes}
    (hrequest : PinClient.command D ss r x = .cbor request) :
    Meets D keys ss x w (handleCbor D request) := by
  -- the pending list is dropped first, which is no matter of the lock
  have hready : ({ w with next := none } : World).Ready keys := ⟨h.env, h.agrees⟩
  by_cases hx : ∀ tok clientDataHash rp, x ≠ .present tok clientDataHash rp
  · obtain ⟨body, rfl⟩ : ∃ body, request = 0x06 :: body := by
      rw [PinClient.command_eq D ss r hx] at hrequest
      exact ⟨_, (Call.cbor.inj hrequest).symm⟩
    exact run_bind.mpr (run_modify.mpr (meets_handle hsound hready hka hz hss hfits hx hrequest))
  · push Not at hx
    obtain ⟨tok, clientDataHash, rp, rfl⟩ := hx
    obtain rfl := Call.cbor.inj hrequest
    exact run_bind.mpr (run_modify.mpr (meets_present hready hfits.1 hfits.2))

/-- Where nothing fails, a command does not die after its last effect. -/
theorem run_finish_ready {K : Set EcdhKey} {ε α : Type} {m : Cmd ε α} {f : α → Answer}
    {r : ε → Refusal} {Q : Answer → World → Prop} {E : Refusal → World → Prop} {C : World → Prop}
    (h : m.Run w (fun a w' => Q (f a) w' ∧ w'.Ready K) (fun e => E (r e)) C) :
    (finish m f r).Run w Q E C := by
  refine run_mapErr.mpr (run_bind.mpr (h.weaken ?_))
  rintro a w' ⟨hQ, hready⟩
  have htick : (tick : Cmd ε Unit) w' = (.ok (), w') := by
    rw [tick_apply (by rw [hready.env.crash]; simp), Env.ticked_of_alive hready.env.crash]
    rfl
  rw [Run, bind_apply_ok htick]
  exact hQ

/-- **A command is a wish.** -/
theorem call_lock {ss : SharedSecret} (hsound : D.provider.Sound keys) {ka : EcdhKey}
    {z : Block 32} {r : PinRound} (hagrees : w.Agrees keys) (henv : r.env'.Reliable keys)
    (hka : w.pin.ka = some ka)
    (hz : D.provider.sharedSecretX ka (D.provider.ecdhPub r.key) = some z)
    (hss : ss = D.provider.derived z) {x : PinWish} (hfits : x.Fits) :
    let c := PinClient.command D ss r x
    w.lock.step D r.env' x = (PinClient.verdict D ss (answer D c (w.begin c r.env')).1 x,
      (w.call D c r.env').lock) ∧ (w.call D c r.env').Agrees keys := by
  obtain ⟨request, hrequest⟩ : ∃ request, PinClient.command D ss r x = .cbor request := by
    cases x <;> exact ⟨_, rfl⟩
  dsimp only
  rw [hrequest]
  have hready : (w.begin (.cbor request) r.env').Ready keys := ⟨henv, hagrees⟩
  have hmeets := meets_handleCbor hsound hready hka hz hss hfits hrequest
  have hanswer : (answer D (.cbor request)).Run (w.begin (.cbor request) r.env')
      (fun a w' => w.lock.step D r.env' x = (PinClient.verdict D ss (.ok a) x, w'.lock) ∧
        w'.Ready keys)
      (fun s w' => w.lock.step D r.env' x = (PinClient.verdict D ss (.err s) x, w'.lock) ∧
        w'.Ready keys) fun _ => False :=
    run_finish_ready (hmeets.weaken fun _ _ h' => ⟨h', h'.2⟩)
  rw [World.call]
  rcases hend : answer D (.cbor request) (w.begin (.cbor request) r.env') with ⟨a | s | _, w'⟩
  · exact ⟨(hanswer.ok hend).1, (hanswer.ok hend).2.agrees⟩
  · exact ⟨(hanswer.err hend).1, (hanswer.err hend).2.agrees⟩
  · exact (hanswer.died hend).elim

/-- **The handshake** gives the public half of the key-agreement key. -/
theorem answer_handshake (h : w.Ready keys) {ka : EcdhKey} (hka : w.pin.ka = some ka) :
    answer D PinClient.handshake w =
      (.ok (.cbor (.keyAgreement (D.provider.ecdhPub ka))), { w with next := none }) := by
  have hhandle : PinManager.handle D (Cbor.encodeMap (PinClient.header 2)) = getKeyAgreement D := by
    have horder : PinClient.InOrder [PinClient.protocol, PinClient.sub 2] :=
      show [(1 : ℤ), 2].Sublist _ by decide
    refine (PinClient.handle_members D horder ?_).trans rfl
    simp [PinClient.readBy_protocol, PinClient.readBy_sub]
  have hrun : (answer D PinClient.handshake).Run w
      (fun a w' => a = .cbor (.keyAgreement (D.provider.ecdhPub ka)) ∧
        w' = { w with next := none }) (fun _ _ => False) fun _ => False := by
    refine run_finish_ready (K := keys) (run_bind.mpr (run_modify.mpr ?_))
    change (PinManager.handle D (Cbor.encodeMap (PinClient.header 2))).Run _ _ _ _
    rw [hhandle, getKeyAgreement, run_bind, run_gets]
    dsimp only
    rw [hka]
    exact ⟨⟨rfl, rfl⟩, h.env, h.agrees⟩
  rcases hend : answer D PinClient.handshake w with ⟨a | s | _, w'⟩
  · obtain ⟨rfl, rfl⟩ := hrun.ok hend
    rfl
  · exact (hrun.err hend).elim
  · exact (hrun.died hend).elim

end Commands

/-! ### The refinement -/

section Refinement

variable {D : Device} {keys : Set EcdhKey} {w : World}

/-- Nothing fails in a conversation whose wish fits. -/
structure PinRound.Usable (keys : Set EcdhKey) (x : PinWish) (r : PinRound) : Prop where
  fits : x.Fits
  key : r.key ∈ keys
  env : r.env.Reliable keys
  env' : r.env'.Reliable keys

/-- A conversation is a wish to the lock. -/
theorem converse_refines (hsound : D.provider.Sound keys) (h : w.Agrees keys) {x : PinWish}
    {r : PinRound} (hr : r.Usable keys x) :
    w.lock.step D r.env' x = ((PinClient.converse D w x r).1, (PinClient.converse D w x r).2.lock) ∧
      (PinClient.converse D w x r).2.Agrees keys := by
  obtain ⟨ka, hmem, hka⟩ := h
  obtain ⟨z, hz, hshared⟩ := hsound.shared hmem hr.key
  have hready : (w.begin PinClient.handshake r.env).Ready keys := ⟨hr.env, ka, hmem, hka⟩
  have hhandshake := answer_handshake (D := D) hready hka
  obtain ⟨w', hcall, hlock, hka'⟩ : ∃ w', w.call D PinClient.handshake r.env = w' ∧
      w'.lock = w.lock ∧ w'.pin.ka = some ka := by
    refine ⟨_, rfl, ?_⟩
    rw [World.call, hhandshake]
    exact ⟨rfl, hka⟩
  have hcommand := call_lock hsound ⟨ka, hmem, hka'⟩ hr.env' hka' hz rfl hr.fits
  rw [PinClient.converse, hhandshake, hcall, ← hlock]
  dsimp only
  rw [hshared]
  exact hcommand

/-- Both ends of a plain key agreement hold the one key there is. -/
theorem Provider.sound_plain (k : EcdhKey) : Provider.plain.Sound {k} where
  agrees := by
    rintro a rfl b rfl
    exact ⟨_, rfl, rfl⟩
  inverts _ _ _ _ := rfl
  length_aes _ _ _ _ := rfl

theorem Env.reliable_calm (b : UInt8) : (Env.calm b).Reliable {⟨Block.replicate 32 b⟩} where
  crash := rfl
  save _ := rfl
  crypto _ := rfl
  cancelled _ := rfl
  random _ := rfl
  ecdhKey _ := ⟨_, rfl, rfl⟩

end Refinement

end Swpasskey
