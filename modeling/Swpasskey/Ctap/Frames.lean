import Swpasskey.Ctap.Authenticator

/-!
# Frames of the commands

Most commands have nothing to do with most properties: the PIN commands leave the rows
alone, the credential commands leave the PIN alone. Instead of walking through every
command again for every property, each command is walked through **once**, over an
arbitrary frame that admits what the command is made of:

* `CheckOps D R`: the frame `R` admits prompts and the check of a pinUvAuthParam;
* `WorkOps D R`: the frame `R` admits what comes after the checks and the prompt;
* `Pieces D R`: the frame `R` admits what every call is made of, so it admits every call;
* `PinOps D R`: the frame `R` admits what the PIN commands are made of, and
  `PinNeutral R`: it does not look at the PIN at all;
* `CredOps R`: the frame `R` admits what the credential commands do to the rows, and
  `CredNeutral D R`: it does not look at the store at all, but for the PIN;
* `RowOps D R`: the frame `R` looks at nothing but the rows, and admits the operations on
  them.

An invariant then only has to be shown to be kept by these pieces.
-/

namespace Swpasskey

open Proc

variable {D : Device} {R : Frame World}

/-! ### The PIN commands -/

/-- An event of a token's life. -/
def Event.OfToken : Event → Prop
  | tokenIssued _ _ _ _ | tokenVerified _ _ _ _ _ _ _ => True
  | _ => False

/-- A frame that admits the check of a PIN, its installation and what happens to the
token. -/
structure PinOps (D : Device) (R : Frame World) : Prop where
  env : ∀ w e, R.rel w (w.withEnv e)
  manager : ∀ w p, R.rel w (PinManager.withManager w p)
  event : ∀ (w : World) ev, ev.OfToken → R.rel w (w.emits [ev])
  checkPinHash : ∀ ss enc, Guarantees R (PinManager.checkPinHash D ss enc)
  install : ∀ hash, Guarantees R (PinManager.install hash)

namespace PinOps

open PinManager

variable (h : PinOps D R)

include h

theorem update (f : PinManager → PinManager) : Guarantees R (PinManager.update f) :=
  fun w => h.manager w (f w.pin)

theorem regenerateKeyAgreement : Guarantees R regenerateKeyAgreement := by
  refine (h.update _).bind fun _ => ((quiet_ask _).guarantees h.env).bind fun k => ?_
  rcases k with _ | k
  · exact Guarantees.throw _
  · exact h.update _

theorem setPinLocal (pin : Bytes) : Guarantees R (setPinLocal D pin) :=
  ((quiet_hashPin pin).guarantees h.env).bind fun hash =>
    (h.install hash).bind fun _ => (h.update _).bind fun _ => h.update _

theorem getToken (key : P256PublicKey) (enc : Bytes) (perms : UInt8) (rpId : Option Bytes) :
    Guarantees R (getToken D key enc perms rpId) := by
  refine ((quiet_sharedSecretFor key).guarantees h.env).bind fun ss => ?_
  refine (h.checkPinHash ss enc).bind fun _ => ((quiet_random 32).guarantees h.env).bind
    fun bytes => ?_
  refine Guarantees.bind ?_ fun _ => ?_
  · exact ((quiet_ask _).guarantees h.env).bind fun now =>
      (h.update _).bind fun _ => fun w => h.event w _ trivial
  · refine ((quiet_pin2Encrypt ss _).guarantees h.env).attempt.bind fun r => ?_
    rcases r with _ | enc
    · exact (h.update _).bind fun _ => Guarantees.throw _
    · exact Guarantees.pure _

theorem changePin (key : P256PublicKey) (enc newPinEnc auth : Bytes) :
    Guarantees R (changePin D key enc newPinEnc auth) := by
  refine Guarantees.bind ?_ fun ss => ?_
  · refine ((quiet_sharedSecretFor key).guarantees h.env).bind fun ss => ?_
    refine (((quiet_hmacSha256 _ _).guarantees h.env).orFail _).bind fun _ => ?_
    exact (Guarantees.require _ _).bind fun _ => (h.checkPinHash ss enc).bind
      fun _ => Guarantees.pure _
  · exact ((quiet_pinFromPadded ss _).guarantees h.env).bind fun hash =>
      (h.install hash).bind fun _ => (h.update _).bind fun _ => Guarantees.pure _

theorem setPin (key : P256PublicKey) (newPinEnc auth : Bytes) :
    Guarantees R (setPin D key newPinEnc auth) :=
  ((quiet_setPinChecks key newPinEnc auth).guarantees h.env).bind fun hash =>
    (h.install hash).bind fun _ => (h.update _).bind fun _ => Guarantees.pure _

theorem verify (param : Bytes) (protocol : UInt64) (clientDataHash : Block 32) (permission : UInt8)
    (rpId : Bytes) : Guarantees R (verify D param protocol clientDataHash permission rpId) :=
  Guarantees.of_run fun w => run_verify (fun _ e => h.env w e)
    (fun _ e => R.trans (h.env w e) (h.manager _ _))
    (fun _ e _ _ _ _ _ _ _ => R.trans (h.env w e) (R.trans (h.manager _ _) (h.event _ _ trivial)))
    fun e => h.env w e

theorem handle (body : Bytes) : Guarantees R (handle D body) := by
  refine (Guarantees.ofExcept _).bind fun q => ?_
  refine dispatch_induction (fun _ => Guarantees.throw _) (Guarantees.gets _)
    (quiet_getKeyAgreement.guarantees h.env) h.setPin h.changePin
    (fun key enc => h.getToken key enc _ _) (fun key enc perms rpId => ?_) q
  exact (Guarantees.require _ _).bind fun _ => (Guarantees.require _ _).bind fun _ =>
    (Guarantees.require _ _).bind fun _ => h.getToken _ _ _ _

end PinOps

/-- A frame that admits any change to the PIN. -/
structure PinNeutral (R : Frame World) : Prop where
  env : ∀ w e, R.rel w (w.withEnv e)
  pin : ∀ w p, R.rel w (w.withPin p)
  manager : ∀ w p, R.rel w (PinManager.withManager w p)
  flushed : ∀ w e ok, R.rel w (w.flushed .setPin e ok)
  event : ∀ (w : World) ev, ev.OfToken → R.rel w (w.emits [ev])
  installed : ∀ (w : World) hash, R.rel w (w.emits [.pinInstalled hash])
  compared : ∀ (w : World) hash equal, R.rel w (w.emits [.pinCompared hash equal])

open PinManager in
theorem PinNeutral.pinOps (h : PinNeutral R) (D : Device) : PinOps D R where
  env := h.env
  manager := h.manager
  event := h.event
  checkPinHash ss enc := by
    refine Guarantees.of_run fun w => ?_
    -- each outcome of a check is a chain of the few things it writes
    have hspent : ∀ hash, R.rel w (spent w hash) := fun hash => h.pin _ _
    have hcompared : ∀ hash e b, R.rel w (PinManager.compared w hash e b) := fun hash e b =>
      R.trans (hspent hash) (R.trans (h.flushed _ e true) (h.compared _ _ _))
    refine run_checkPinHash (fun _ e => h.env w e) (fun e => h.env w e) ?_ ?_ ?_
    · intro hash e _ _
      exact ⟨R.trans (hspent hash) (h.flushed _ _ _), R.trans (hspent hash) (h.env _ _)⟩
    · intro hash e p e' _ _ _ _
      have hw := R.trans (hcompared hash e false) (R.trans (h.env _ e') (h.manager _ p))
      exact ⟨hw, hw⟩
    · intro hash e _ _
      have hw := R.trans (hcompared hash e true)
        (h.manager _ { w.pin with consecutiveFailures := 0 })
      have hw' := R.trans hw (h.pin _ ⟨some hash, kMaxRetries⟩)
      exact ⟨hw, fun e' => ⟨fun ok => R.trans hw' (h.flushed _ _ _), R.trans hw' (h.env _ _)⟩⟩
  install hash := by
    refine Guarantees.of_run fun w => run_install fun e => ?_
    have hw := R.trans (h.installed w hash) (h.pin _ ⟨some hash, kMaxRetries⟩)
    exact ⟨R.trans hw (h.flushed _ _ _), R.trans hw (h.flushed _ _ _), R.trans hw (h.env _ _)⟩

/-! ### All calls -/

theorem guarantees_decision (d : Decision) : Guarantees R d.require :=
  Guarantees.of_run fun w => run_decision (fun _ => R.refl w) fun _ _ => R.refl w

/-- `check_pin_auth`, when a frame admits its two parts. -/
theorem guarantees_checkPinAuth {param : Option Bytes} {protocol : Option UInt64}
    {clientDataHash : Block 32} {permission : UInt8} {rpId : Bytes} {rpIdHash : Block 32}
    {isMake : Bool}
    (hconfirm : ∀ kind rpId display rpIdHash,
      Guarantees R (confirmUp kind rpId display rpIdHash : Cmd Status Decision))
    (hverify : ∀ param protocol clientDataHash permission rpId,
      Guarantees R (PinManager.verify D param protocol clientDataHash permission rpId)) :
    Guarantees R
      (checkPinAuth D param protocol clientDataHash permission rpId rpIdHash isMake) := by
  rcases param with _ | param
  · exact (Guarantees.gets _).bind fun _ => (Guarantees.require _ _).bind fun _ => Guarantees.pure _
  rcases protocol with _ | protocol
  · exact Guarantees.throw _
  refine (Guarantees.require _ _).bind fun _ => Guarantees.ite ?_ (hverify _ _ _ _ _)
  refine (hconfirm _ _ _ _).bind fun d => ?_
  cases d with
  | allow => exact (Guarantees.gets _).bind fun _ => Guarantees.throw _
  | _ => exact Guarantees.throw _

/-- A frame that admits prompts and the check of a pinUvAuthParam. -/
structure CheckOps (D : Device) (R : Frame World) : Prop where
  env : ∀ w e, R.rel w (w.withEnv e)
  prompted : ∀ (w : World) req d, R.rel w (w.emits [.prompted req d])
  verify : ∀ param protocol clientDataHash permission rpId,
    Guarantees R (PinManager.verify D param protocol clientDataHash permission rpId)

namespace CheckOps

variable (h : CheckOps D R)

include h

theorem confirmUp {ε : Type} (kind : PresenceKind) (rpId display : Bytes) (rpIdHash : Block 32) :
    Guarantees R (confirmUp kind rpId display rpIdHash : Cmd ε Decision) :=
  Guarantees.of_run fun w => run_confirmUp (h.env w)
    (fun _ e => R.trans (h.env w e) (h.prompted _ _ _)) (h.env w)

theorem confirmLocal (kind : PresenceKind) : Guarantees R (confirmLocal kind) :=
  (h.confirmUp _ _ _ _).bind fun d => guarantees_decision d

theorem checkPinAuth (param : Option Bytes) (protocol : Option UInt64) (clientDataHash : Block 32)
    (permission : UInt8) (rpId : Bytes) (rpIdHash : Block 32) (isMake : Bool) :
    Guarantees R
      (checkPinAuth D param protocol clientDataHash permission rpId rpIdHash isMake) :=
  guarantees_checkPinAuth h.confirmUp h.verify

theorem makeCredentialChecks (body : Bytes) : Guarantees R (makeCredentialChecks D body) := by
  refine (Guarantees.ofExcept _).bind fun q => (h.checkPinAuth _ _ _ _ _ _ _).bind fun uv => ?_
  refine (Guarantees.gets _).bind fun _ => (h.confirmUp _ _ _ _).bind fun d => ?_
  refine (Guarantees.require _ _).bind fun _ => (Guarantees.require _ _).bind fun _ => ?_
  refine (guarantees_decision d).bind fun _ => (Guarantees.gets _).bind fun _ => ?_
  exact (Guarantees.require _ _).bind fun _ => Guarantees.pure _

theorem confirmAssertion (q : GetAssertionRequest) (rpIdHash : Block 32) (first : Credential) :
    Guarantees R (confirmAssertion q rpIdHash first) :=
  Guarantees.ite ((h.confirmUp _ _ _ _).bind fun d => guarantees_decision d) (Guarantees.pure _)

theorem u2fRegister (hrow : ∀ challenge application,
    Guarantees R (registerRow D challenge application)) (data : Bytes) :
    Guarantees R (u2fRegister D data) := by
  refine (Guarantees.require _ _).bind fun _ => (h.confirmUp _ _ _ _).bind fun d => ?_
  exact (Guarantees.require _ _).bind fun _ => (hrow _ _).orFail _

omit h in
theorem and {S : Frame World} (h : CheckOps D R) (h' : CheckOps D S) : CheckOps D (R.and S) where
  env w e := ⟨h.env w e, h'.env w e⟩
  prompted w req d := ⟨h.prompted w req d, h'.prompted w req d⟩
  verify param protocol hash permission rpId :=
    (h.verify param protocol hash permission rpId).and
      (h'.verify param protocol hash permission rpId)

end CheckOps

/-- A frame that admits the use of a row. -/
structure AssertOps (R : Frame World) : Prop where
  env : ∀ w e, R.rel w (w.withEnv e)
  updateCountAndUsed : ∀ credId n t, Guarantees R (Store.updateCountAndUsed credId n t)

namespace AssertOps

variable (h : AssertOps R)

include h

theorem buildAssertion (cred : Credential) (rpIdHash clientDataHash : Block 32) (flags : UInt8)
    (bump : Bool) (ext : ExtensionsIn) (number : Option ℕ) :
    Guarantees R (buildAssertion D cred rpIdHash clientDataHash flags bump ext number) :=
  fun w => run_buildAssertion (fun _ => h.env w) (fun _ _ e _ => h.env w e)
    (fun _ now e => ((h.updateCountAndUsed _ _ now).run (w.withEnv e)).mono
      (fun _ _ hr _ _ => R.trans (h.env w e) hr) (fun _ _ hr => R.trans (h.env w e) hr)
      fun _ hr => R.trans_lost (h.env w e) hr) fun e => R.lost_of_rel (h.env w e)

theorem signChallenge (cred : Credential) (challenge application : Block 32) (enforce : Bool) :
    Guarantees R (signChallenge D cred challenge application enforce) := by
  refine fun w => run_signChallenge (fun _ => h.env w) (fun _ _ => h.env w) (fun _ now e _ => ?_)
    fun e => R.lost_of_rel (h.env w e)
  exact ((h.updateCountAndUsed _ _ now).run (w.withEnv e)).mono
    (fun _ _ hr => R.trans (h.env w e) hr) (fun _ _ hr => R.trans (h.env w e) hr)
    fun _ hr => R.trans_lost (h.env w e) hr

end AssertOps

/-- A frame that admits what signing for a row is made of. -/
structure SignOps (D : Device) (R : Frame World) : Prop extends CheckOps D R, AssertOps R

namespace SignOps

variable (h : SignOps D R)

include h

theorem u2fAuthenticate (p1 : UInt8) (data : Bytes) : Guarantees R (u2fAuthenticate D p1 data) := by
  refine (Guarantees.require _ _).bind fun _ => (Guarantees.require _ _).bind fun _ => ?_
  refine (Guarantees.require _ _).bind fun _ => (Guarantees.gets _).bind fun s => ?_
  dsimp only
  split
  · exact Guarantees.throw _
  refine (Guarantees.require _ _).bind fun _ => Guarantees.ite ?_
    ((h.toAssertOps.signChallenge _ _ _ _).orFail _)
  exact (h.toCheckOps.confirmUp _ _ _ _).bind fun d => (Guarantees.require _ _).bind fun _ =>
    (h.toAssertOps.signChallenge _ _ _ _).orFail _

theorem handleU2f (hregister : ∀ data, Guarantees R (u2fRegister D data)) (apdu : Bytes) :
    Guarantees R (handleU2f D apdu) := by
  refine (Guarantees.require _ _).bind fun _ => ?_
  split
  · exact Guarantees.throw _
  · refine (Guarantees.require _ _).bind fun _ => Guarantees.ite (Guarantees.pure _) ?_
    exact Guarantees.ite (hregister _) (Guarantees.ite (h.u2fAuthenticate _ _)
      (Guarantees.throw _))

end SignOps

/-- A frame that admits what the assertions of a list are made of. -/
structure ListOps (D : Device) (R : Frame World) : Prop extends SignOps D R where
  next : ∀ (w : World) n, R.rel w { w with next := n }

namespace ListOps

variable (h : ListOps D R)

include h

theorem guarantees_dropNext : Guarantees R Swpasskey.dropNext := fun w => h.next w none

theorem assertFirst (q : GetAssertionRequest) (rpIdHash : Block 32) (uv : Bool)
    (first : Credential) (rest : List Credential) :
    Guarantees R (assertFirst D q rpIdHash uv first rest) := by
  refine (h.toCheckOps.confirmAssertion _ _ _).bind fun _ => Guarantees.bind ?_ fun _ => ?_
  · exact Guarantees.ite (Guarantees.pure _) (((quiet_ask _).guarantees h.env).bind fun _ w =>
      h.next w _)
  · refine (h.toAssertOps.buildAssertion _ _ _ _ _ _ _).attempt.bind fun r => ?_
    rcases r with e | r
    · exact h.guarantees_dropNext.bind fun _ => Guarantees.throw _
    · exact Guarantees.pure _

theorem cmdGetAssertion (body : Bytes) : Guarantees R (cmdGetAssertion D body) := by
  refine h.guarantees_dropNext.bind fun _ => (Guarantees.ofExcept _).bind fun q => ?_
  refine (Guarantees.gets _).bind fun s =>
    (h.toCheckOps.checkPinAuth _ _ _ _ _ _ _).bind fun uv => ?_
  rcases sortCandidates (candidates s _ q.allowList) with _ | ⟨first, rest⟩
  · exact Guarantees.throw _
  · exact h.assertFirst _ _ _ _ _

theorem cmdGetNextAssertion : Guarantees R (cmdGetNextAssertion D) := by
  refine (Guarantees.gets _).bind fun st => ?_
  rcases st with _ | st
  · exact Guarantees.throw _
  dsimp only
  rcases st.remaining with _ | ⟨cred, rest⟩
  · exact h.guarantees_dropNext.bind fun _ => Guarantees.throw _
  refine ((quiet_ask _).guarantees h.env).bind fun now => Guarantees.ite ?_ ?_
  · exact h.guarantees_dropNext.bind fun _ => Guarantees.throw _
  · refine Guarantees.bind (fun w => h.next w _) fun _ => ?_
    refine (h.toAssertOps.buildAssertion _ _ _ _ _ _ _).attempt.bind fun r => ?_
    exact Guarantees.ite (h.guarantees_dropNext.bind fun _ => Guarantees.ofExcept r)
      (Guarantees.ofExcept r)

end ListOps

/-- A registration, when a frame admits each of its parts. -/
theorem guarantees_registerRow (hattest : Guarantees R (attestationMaterial D))
    (hregister : ∀ challenge application key cert,
      Guarantees R (registerWith D challenge application key cert))
    (challenge application : Block 32) : Guarantees R (registerRow D challenge application) := by
  refine (Guarantees.gets _).bind fun _ => (Guarantees.require _ _).bind fun _ => ?_
  exact hattest.bind fun a => hregister _ _ _ _

/-- A frame that admits the work of every call: what comes after the checks and the
prompt. -/
structure WorkOps (D : Device) (R : Frame World) : Prop where
  env : ∀ w e, R.rel w (w.withEnv e)
  dropNext : ∀ w : World, R.rel w { w with next := none }
  createCredential : ∀ q uv, Guarantees R (createCredential D q uv)
  attestationMaterial : Guarantees R (attestationMaterial D)
  registerWith : ∀ challenge application key cert,
    Guarantees R (registerWith D challenge application key cert)
  ctlDelete : ∀ credId, Guarantees R (ctlDelete D credId)
  resetApproved : Guarantees R (resetApproved D)
  tpmStateOrCreate : Guarantees R Store.tpmStateOrCreate
  setSerial : ∀ serial, Guarantees R (Store.setSerial serial)
  handle : ∀ body, Guarantees R (PinManager.handle D body)
  setPinLocal : ∀ pin, Guarantees R (PinManager.setPinLocal D pin)

namespace WorkOps

variable (h : WorkOps D R)

include h

theorem guarantees_dropNext : Guarantees R Swpasskey.dropNext := h.dropNext

theorem registerRow (challenge application : Block 32) :
    Guarantees R (registerRow D challenge application) :=
  guarantees_registerRow h.attestationMaterial h.registerWith challenge application

end WorkOps

theorem guarantees_reinitAfterReset (henv : ∀ w e, R.rel w (w.withEnv e))
    (htpm : Guarantees R Store.tpmStateOrCreate) : Guarantees R (reinitAfterReset D) :=
  Guarantees.ite (htpm.bind fun _ => ((quiet_ask _).guarantees henv).bind fun _ =>
    Guarantees.require _ _) (Guarantees.pure _)

/-- A reset, when a frame admits each of its parts. -/
theorem guarantees_resetApproved (henv : ∀ w e, R.rel w (w.withEnv e))
    (hdrop : ∀ w : World, R.rel w { w with next := none })
    (hreset : Guarantees R (Store.factoryReset (destroyKey D)))
    (hregenerate : Guarantees R PinManager.regenerateKeyAgreement)
    (htpm : Guarantees R Store.tpmStateOrCreate) : Guarantees R (resetApproved D) := by
  refine Guarantees.bind hdrop fun _ => (hreset.orFail _).bind fun _ => ?_
  exact hregenerate.attempt.bind fun _ => (guarantees_reinitAfterReset henv htpm).orFail _

/-- A frame that admits what every call is made of that makes no assertion. -/
structure CallOps (D : Device) (R : Frame World) : Prop extends CheckOps D R, WorkOps D R

namespace CallOps

variable (h : CallOps D R)

include h

theorem cmdMakeCredential (body : Bytes) : Guarantees R (cmdMakeCredential D body) :=
  (h.toCheckOps.makeCredentialChecks body).bind fun _ => h.createCredential _ _

theorem u2fRegister (data : Bytes) : Guarantees R (u2fRegister D data) :=
  h.toCheckOps.u2fRegister h.toWorkOps.registerRow data

theorem cmdReset : Guarantees R (cmdReset D) :=
  (h.toCheckOps.confirmLocal _).bind fun _ => h.toWorkOps.resetApproved.bind fun _ =>
    Guarantees.pure _

theorem cmdAuthenticatorSelection : Guarantees R cmdAuthenticatorSelection :=
  (h.toCheckOps.confirmLocal _).bind fun _ => Guarantees.pure _

theorem ctlReset : Guarantees R (ctlReset D) := h.cmdReset.bind fun _ => Guarantees.pure _

theorem ctlSetPin (pin : Bytes) : Guarantees R (ctlSetPin D pin) :=
  (h.toCheckOps.confirmLocal _).bind fun _ => h.setPinLocal pin

end CallOps

/-- A frame that admits what every call is made of, apart from the pending assertion
list. -/
structure U2fOps (D : Device) (R : Frame World) : Prop extends CallOps D R, AssertOps R

theorem U2fOps.signOps (h : U2fOps D R) : SignOps D R := { h with }

/-- A frame that admits what every call is made of. -/
structure Pieces (D : Device) (R : Frame World) : Prop extends U2fOps D R where
  next : ∀ (w : World) n, R.rel w { w with next := n }

namespace Pieces

variable (h : Pieces D R)

include h

theorem listOps : ListOps D R := { h with }

theorem handleCbor (request : Bytes) : Guarantees R (handleCbor D request) := by
  rcases request with _ | ⟨cmd, body⟩
  · exact Guarantees.throw _
  refine Guarantees.ite h.listOps.cmdGetNextAssertion (h.guarantees_dropNext.bind fun _ => ?_)
  refine Guarantees.ite (Guarantees.gets _) (Guarantees.ite (h.toCallOps.cmdMakeCredential _) ?_)
  refine Guarantees.ite (h.listOps.cmdGetAssertion _) (Guarantees.ite h.toCallOps.cmdReset ?_)
  refine Guarantees.ite (h.handle _) (Guarantees.ite ?_ (Guarantees.throw _))
  exact h.toCallOps.cmdAuthenticatorSelection

theorem finish {ε α : Type} {m : Cmd ε α} (hm : Guarantees R m) (f : α → Answer)
    (r : ε → Refusal) : Guarantees R (finish m f r) :=
  (hm.bind fun _ => (quiet_tick.guarantees h.env).bind fun _ => Guarantees.pure _).mapErr r

/-- A frame that admits the pieces admits every call. -/
theorem answer (c : Call) : Guarantees R (answer D c) := by
  cases c with
  | cbor request => exact h.finish (h.handleCbor request) _ _
  | u2f apdu => exact h.finish (h.toU2fOps.signOps.handleU2f h.toCallOps.u2fRegister apdu) _ _
  | ctlReset => exact h.finish h.toCallOps.ctlReset _ _
  | ctlSetPin pin => exact h.finish (h.toCallOps.ctlSetPin pin) _ _
  | ctlDelete credId => exact h.finish (h.ctlDelete credId) _ _
  | setSerial serial => exact h.finish (h.setSerial serial) _ _
  | tpmParams => exact h.finish h.tpmStateOrCreate _ _

end Pieces

/-! ### Frames that look at neither the rows nor the PIN -/

/-- A new key, when a frame admits its parts. -/
theorem guarantees_generateKey (henv : ∀ w e, R.rel w (w.withEnv e))
    (hcreated : ∀ (w : World) kind ref, R.rel w (w.emits [.keyCreated kind ref]))
    (kind : BackendKind) : Guarantees R (generateKey kind) := by
  refine ((quiet_ask _).guarantees henv).bind fun m => ?_
  rcases m with _ | m
  · exact Guarantees.throw _
  · exact Guarantees.bind (fun w => hcreated w _ _) fun _ => Guarantees.pure _

/-- A mutator of the store that has nothing to do with rows or the PIN. -/
def Mutator.aside : Mutator → Bool
  | tpmStateOrCreate | clearTpmState | setU2fAttestation | setSerial => true
  | _ => false

/-- A frame that admits the changes to the rest of the store. -/
structure SideOps (R : Frame World) : Prop where
  env : ∀ w e, R.rel w (w.withEnv e)
  store : ∀ (w : World) (s : Store), s.creds = w.store.creds → s.pin = w.store.pin →
    R.rel w { w with store := s }
  flushed : ∀ w (m : Mutator) e ok, m.aside = true → R.rel w (w.flushed m e ok)
  keyCreated : ∀ (w : World) kind ref, R.rel w (w.emits [.keyCreated kind ref])

namespace SideOps

variable (h : SideOps R)

include h

theorem tpmStateOrCreate : Guarantees R Store.tpmStateOrCreate := by
  refine Guarantees.of_run fun w => ?_
  have ht : ∀ t, R.rel w (w.withTpm t) := fun t => h.store w _ rfl rfl
  exact Store.run_tpmStateOrCreate (fun _ => R.refl w) (fun t _ => R.trans (ht t)
    (h.flushed _ _ _ _ rfl))
    (fun _ t _ => R.trans (ht t) (h.env _ _)) (fun t _ => R.trans (ht t) (h.flushed _ _ _ _ rfl))
    fun t _ => R.trans (ht t) (h.env _ _)

theorem setSerial (serial : Bytes) : Guarantees R (Store.setSerial serial) := by
  refine Guarantees.of_run fun w => ?_
  have hs : R.rel w { w with store := { w.store with serial := serial } } := h.store w _ rfl rfl
  exact Store.run_setSerial (fun _ => R.refl w) (fun _ _ => R.trans hs (h.flushed _ _ _ _ rfl))
    (fun _ => R.trans hs (h.flushed _ _ _ _ rfl)) fun _ => R.trans hs (h.env _ _)

theorem attestationMaterial : Guarantees R (attestationMaterial D) := by
  refine (Guarantees.gets _).bind fun a => ?_
  rcases a with _ | a
  · refine (guarantees_generateKey h.env h.keyCreated _).bind fun key => ?_
    split
    · exact Guarantees.throw _
    · refine Guarantees.bind (Guarantees.bind (fun w => h.store w _ rfl rfl) fun _ => ?_) fun _ =>
        Guarantees.pure _
      exact Guarantees.of_run fun w => Store.run_flush (fun e => h.flushed w _ e _ rfl)
        (fun e => h.flushed w _ e _ rfl) (h.env w)
  · dsimp only
    split
    · exact Guarantees.throw _
    · refine (Guarantees.require _ _).bind fun _ => ?_
      split
      · exact Guarantees.throw _
      · exact ((quiet_ask _).guarantees h.env).bind fun _ =>
          (Guarantees.require _ _).bind fun _ => Guarantees.pure _

end SideOps

/-! ### Frames that do not look at the rows -/

/-- An event in the life of a row. -/
def Event.OfCredential : Event → Prop
  | keyCreated _ _ | keyDestroyed _ _ | secretCreated _ _ | secretDestroyed _ _
  | credIdDrawn _ | credRandomMade _ _ _ => True
  | _ => False

/-- A frame that admits what the credential commands do to the rows, the pending list and the
log. -/
structure CredOps (R : Frame World) : Prop where
  env : ∀ w e, R.rel w (w.withEnv e)
  creds : ∀ (w : World) (l : List Credential), R.rel w (w.withCreds l)
  dropNext : ∀ w : World, R.rel w { w with next := none }
  flushed : ∀ w m e ok, R.rel w (w.flushed m e ok)
  event : ∀ (w : World) ev, ev.OfCredential → R.rel w (w.emits [ev])

namespace CredOps

variable (h : CredOps R)

include h

theorem put (c : Credential) : Guarantees R (Store.put c) :=
  Guarantees.of_run fun w => Store.run_put (fun _ => R.refl w)
    (fun _ _ _ => R.trans (h.creds w _) (h.flushed _ _ _ _)) (fun _ => h.flushed w _ _ _)
    fun _ => R.trans (h.creds w _) (h.env _ _)

theorem erase (credId : Bytes) : Guarantees R (Store.erase credId) :=
  Guarantees.of_run fun w => Store.run_erase (fun _ => R.refl w)
    (fun _ _ _ => R.trans (h.creds w _) (h.flushed _ _ _ _))
    (fun _ _ _ => R.trans (h.creds w _) (h.flushed _ _ _ _))
    fun _ _ _ => R.trans (h.creds w _) (h.env _ _)

theorem updateCountAndUsed (credId : Bytes) (n : UInt32) (t : UInt64) :
    Guarantees R (Store.updateCountAndUsed credId n t) :=
  Guarantees.of_run fun w => Store.run_updateCountAndUsed (R.refl w)
    (fun _ _ _ => R.trans (h.creds w _) (h.flushed _ _ _ _))
    (fun _ _ _ => R.trans (h.creds w _) (h.flushed _ _ _ _))
    fun _ _ _ => R.trans (h.creds w _) (h.env _ _)

theorem destroyKey (c : Credential) : Guarantees R (destroyKey D c) :=
  Guarantees.ite ((quiet_tick.guarantees h.env).bind fun _ =>
    Guarantees.bind (fun w => h.event w _ trivial) fun _ =>
      (quiet_tick.guarantees h.env).bind fun _ w => h.event w _ trivial) (Guarantees.pure _)

theorem createRow (template : Credential) : Guarantees R (createRow D template) := by
  refine (guarantees_generateKey h.env (fun w _ _ => h.event w _ trivial) _).bind fun key =>
    ((quiet_random 32).guarantees h.env).bind fun id => ?_
  refine Guarantees.bind (fun w => h.event w _ trivial) fun _ => ?_
  refine ((quiet_ask _).guarantees h.env).bind fun now => ?_
  refine ((quiet_random 64).guarantees h.env).bind fun secret => Guarantees.bind ?_ fun _ =>
    Guarantees.bind (fun w => h.event w _ trivial) fun _ => Guarantees.pure _
  exact ((quiet_wrappedSecret _ _).guarantees h.env).bind fun _ =>
    Guarantees.bind (fun w => h.event w _ trivial) fun _ => Guarantees.pure _

theorem storeRow (c : Credential) : Guarantees R (storeRow D c) := by
  refine (h.put c).attempt.bind fun r => ?_
  rcases r with e | _
  · exact (h.destroyKey c).bind fun _ => Guarantees.throw _
  · exact Guarantees.pure _

theorem replaceRow (old : Credential) : Guarantees R (replaceRow D old) :=
  (h.destroyKey old).bind fun _ => (h.erase _).attempt.bind fun _ => Guarantees.pure _

theorem createCredential (q : MakeCredentialRequest) (uv : Bool) :
    Guarantees R (createCredential D q uv) := by
  refine (h.createRow _).bind fun kc => (Guarantees.gets _).bind fun _ => ?_
  refine (Guarantees.forEach h.replaceRow _).bind fun _ => (h.storeRow _).bind fun _ => ?_
  exact ((quiet_signDer _ _).guarantees h.env).bind fun _ => Guarantees.pure _

theorem registerWith (challenge application : Block 32) (key : SigningKey) (cert : Bytes) :
    Guarantees R (registerWith D challenge application key cert) :=
  (h.createRow _).bind fun _ => ((quiet_signDer _ _).guarantees h.env).bind fun _ =>
    (h.storeRow _).bind fun _ => Guarantees.pure _

theorem ctlDelete (credId : Bytes) : Guarantees R (ctlDelete D credId) := by
  refine (Guarantees.gets _).bind fun s => ?_
  rcases s.findById credId with _ | row
  · exact Guarantees.throw _
  · exact (h.destroyKey row).bind fun _ => Guarantees.bind h.dropNext fun _ =>
      h.erase credId

theorem assertOps : AssertOps R where
  env := h.env
  updateCountAndUsed := h.updateCountAndUsed

theorem factoryReset (hwipe : Guarantees R Store.wipe) :
    Guarantees R (Store.factoryReset (Swpasskey.destroyKey D)) :=
  (Guarantees.gets _).bind fun s => (Guarantees.forEach h.destroyKey s.creds).bind fun _ => hwipe

end CredOps

/-- A frame that admits what the credential commands do to the store, the pending list and
the log, and the check of a pinUvAuthParam. -/
structure CredNeutral (D : Device) (R : Frame World) : Prop extends CredOps R where
  store : ∀ (w : World) (s : Store), s.pin = w.store.pin → R.rel w { w with store := s }
  verify : ∀ param protocol clientDataHash permission rpId,
    Guarantees R (PinManager.verify D param protocol clientDataHash permission rpId)
  creds := fun w _ => store w _ rfl

namespace CredNeutral

variable (h : CredNeutral D R)

include h

theorem sideOps : SideOps R where
  env := h.env
  store w s _ hs := h.store w s hs
  flushed w m e ok _ := h.flushed w m e ok
  keyCreated w _ _ := h.event w _ trivial

/-- With resets and the PIN commands, this is all the work. -/
theorem workOps (hreset : Guarantees R (resetApproved D))
    (hhandle : ∀ body, Guarantees R (PinManager.handle D body))
    (hlocal : ∀ pin, Guarantees R (PinManager.setPinLocal D pin)) : WorkOps D R where
  env := h.env
  dropNext := h.dropNext
  createCredential := h.createCredential
  attestationMaterial := h.sideOps.attestationMaterial
  registerWith := h.registerWith
  ctlDelete := h.ctlDelete
  resetApproved := hreset
  tpmStateOrCreate := h.sideOps.tpmStateOrCreate
  setSerial := h.sideOps.setSerial
  handle := hhandle
  setPinLocal := hlocal

/-- With the wipe of a factory reset and the parts of the PIN commands, this is all the
work. -/
theorem workOps_of_pinOps (hwipe : Guarantees R Store.wipe) (hpin : PinOps D R) : WorkOps D R :=
  h.workOps (guarantees_resetApproved h.env h.dropNext (h.factoryReset hwipe)
    hpin.regenerateKeyAgreement h.sideOps.tpmStateOrCreate) hpin.handle hpin.setPinLocal

theorem pieces (hprompted : ∀ (w : World) req d, R.rel w (w.emits [.prompted req d]))
    (hnext : ∀ (w : World) n, R.rel w { w with next := n }) (hwork : WorkOps D R) :
    Pieces D R where
  toWorkOps := hwork
  prompted := hprompted
  verify := h.verify
  updateCountAndUsed := h.updateCountAndUsed
  next := hnext

end CredNeutral

/-! ### Frames that look at nothing but the rows -/

/-- An event that says nothing about the rows or the fate of their keys. -/
def Event.Plain : Event → Prop
  | prompted _ _ | keyCreated _ _ | pinInstalled _ | pinCompared _ _ | tokenIssued _ _ _ _
  | tokenVerified _ _ _ _ _ _ _ => True
  | _ => False

/-- A frame that admits everything that leaves the rows alone, and the operations on rows. -/
structure RowOps (D : Device) (R : Frame World) : Prop where
  env : ∀ w e, R.rel w (w.withEnv e)
  store : ∀ (w : World) (s : Store), s.creds = w.store.creds → R.rel w { w with store := s }
  manager : ∀ w p, R.rel w (PinManager.withManager w p)
  dropNext : ∀ w : World, R.rel w { w with next := none }
  flushed : ∀ w (m : Mutator) e ok, m.aside = true ∨ m = .setPin → R.rel w (w.flushed m e ok)
  event : ∀ (w : World) ev, ev.Plain → R.rel w (w.emits [ev])
  createCredential : ∀ q uv, Guarantees R (createCredential D q uv)
  registerWith : ∀ challenge application key cert,
    Guarantees R (registerWith D challenge application key cert)
  ctlDelete : ∀ credId, Guarantees R (ctlDelete D credId)
  factoryReset : Guarantees R (Store.factoryReset (destroyKey D))

namespace RowOps

variable (h : RowOps D R)

include h

theorem sideOps : SideOps R where
  env := h.env
  store w s hs _ := h.store w s hs
  flushed w m e ok hm := h.flushed w m e ok (.inl hm)
  keyCreated w _ _ := h.event w _ trivial

theorem pinOps : PinOps D R :=
  PinNeutral.pinOps {
    env := h.env
    pin := fun w _ => h.store w _ rfl
    manager := h.manager
    flushed := fun w e ok => h.flushed w _ e ok (.inr rfl)
    event := fun w ev hev => h.event w ev (by cases ev <;> first | exact hev.elim | trivial)
    installed := fun w _ => h.event w _ trivial
    compared := fun w _ _ => h.event w _ trivial } D

theorem callOps : CallOps D R where
  env := h.env
  dropNext := h.dropNext
  prompted w _ _ := h.event w _ trivial
  verify := h.pinOps.verify
  createCredential := h.createCredential
  attestationMaterial := h.sideOps.attestationMaterial
  registerWith := h.registerWith
  ctlDelete := h.ctlDelete
  resetApproved := guarantees_resetApproved h.env h.dropNext h.factoryReset
    h.pinOps.regenerateKeyAgreement h.sideOps.tpmStateOrCreate
  tpmStateOrCreate := h.sideOps.tpmStateOrCreate
  setSerial := h.sideOps.setSerial
  handle := h.pinOps.handle
  setPinLocal := h.pinOps.setPinLocal

theorem pieces (hused : ∀ credId n t, Guarantees R (Store.updateCountAndUsed credId n t))
    (hnext : ∀ (w : World) n, R.rel w { w with next := n }) : Pieces D R where
  toCallOps := h.callOps
  updateCountAndUsed := hused
  next := hnext

end RowOps

/-! ### The log only grows -/

/-- An event of the work a call does: not its beginning or end, and not a prompt. -/
def Event.Work : Event → Prop
  | called _ | answered _ _ | refused _ _ | restarted | prompted _ _ => False
  | _ => True

/-- An event inside a call. -/
def Event.Inner : Event → Prop
  | called _ | answered _ _ | refused _ _ | restarted => False
  | _ => True

/-- The frame of a procedure that appends events of a certain sort to the log. -/
def logs (P : Event → Prop) : Frame World :=
  Frame.ofRel (fun w w' => ∃ evs, w'.log = w.log ++ evs ∧ ∀ ev ∈ evs, P ev)
    (fun _ => ⟨[], (List.append_nil _).symm, fun _ h => by cases h⟩) <| by
      rintro w w' w'' ⟨evs, hlog, hevs⟩ ⟨evs', hlog', hevs'⟩
      refine ⟨evs ++ evs', by rw [hlog', hlog, List.append_assoc], fun ev hev => ?_⟩
      exact (List.mem_append.mp hev).elim (hevs ev) (hevs' ev)

section Logs

variable {P : Event → Prop}

theorem logs_of_eq {w w' : World} (h : w'.log = w.log) : (logs P).rel w w' :=
  ⟨[], by rw [h, List.append_nil], fun _ h => by cases h⟩

theorem logs_emits {w : World} {ev : Event} (h : P ev) : (logs P).rel w (w.emits [ev]) :=
  ⟨[ev], rfl, fun _ hev => List.mem_singleton.mp hev ▸ h⟩

variable (hP : ∀ ev : Event, ev.Work → P ev)

include hP

theorem logs_flushed (w : World) (m : Mutator) (e : Env) (ok : Bool) :
    (logs P).rel w (w.flushed m e ok) := by
  cases ok
  · exact logs_emits (w := w.withEnv e) (hP _ trivial)
  · exact logs_emits (w := w.withEnv e) (hP _ trivial)

theorem logs_credNeutral (D : Device) : CredNeutral D (logs P) where
  env _ _ := logs_of_eq rfl
  store _ _ _ := logs_of_eq rfl
  dropNext _ := logs_of_eq rfl
  flushed := logs_flushed hP
  event _ ev hev := logs_emits (hP ev (by cases ev <;> first | exact hev.elim | trivial))
  verify _ _ _ _ _ := Guarantees.of_run fun w => PinManager.run_verify
    (fun _ _ => logs_of_eq rfl) (fun _ _ => logs_of_eq rfl)
    (fun _ e _ _ _ _ _ _ _ => logs_emits (w := PinManager.withManager (w.withEnv e) _)
      (hP _ trivial))
    fun _ => logs_of_eq rfl

theorem logs_pinOps (D : Device) : PinOps D (logs P) :=
  PinNeutral.pinOps {
    env := fun _ _ => logs_of_eq rfl
    pin := fun _ _ => logs_of_eq rfl
    manager := fun _ _ => logs_of_eq rfl
    flushed := fun w e ok => logs_flushed hP w _ e ok
    event := fun _ ev hev => logs_emits (hP ev (by cases ev <;> first | exact hev.elim | trivial))
    installed := fun _ _ => logs_emits (hP _ trivial)
    compared := fun _ _ _ => logs_emits (hP _ trivial) } D

theorem logs_wipe : Guarantees (logs P) Store.wipe := by
  have hwiped : ∀ w : World, (logs P).rel w w.wiped := fun w => logs_emits (hP _ trivial)
  have hreset : ∀ (w : World) e ok gone, (logs P).rel w (w.wiped.persisterReset e ok gone) :=
    fun w e ok gone => (logs P).trans (hwiped w) (logs_emits (w := w.wiped.withEnv e)
      (hP _ trivial))
  exact Guarantees.of_run fun w => Store.run_wipe
    (fun _ _ _ => (logs P).trans (hreset w _ _ _) (logs_flushed hP _ _ _ _))
    (fun _ _ _ => (logs P).trans (hreset w _ _ _) (logs_flushed hP _ _ _ _))
    (fun _ _ => hreset w _ _ _) (fun _ => hwiped w) fun _ _ _ => hreset w _ _ _

end Logs

theorem Event.Work.inner {ev : Event} (h : ev.Work) : ev.Inner := by
  cases ev <;> first | exact h | trivial

/-- The frame of everything inside a call. -/
abbrev logGrows : Frame World := logs Event.Inner

theorem logGrows_credNeutral (D : Device) : CredNeutral D logGrows :=
  logs_credNeutral (fun _ => Event.Work.inner) D

theorem logGrows_pieces (D : Device) : Pieces D logGrows :=
  (logGrows_credNeutral D).pieces (fun _ _ _ => logs_emits trivial) (fun _ _ => logs_of_eq rfl)
    ((logGrows_credNeutral D).workOps_of_pinOps (logs_wipe fun _ => Event.Work.inner)
      (logs_pinOps (fun _ => Event.Work.inner) D))

theorem logGrows_factoryReset (D : Device) :
    Guarantees logGrows (Store.factoryReset (destroyKey D)) :=
  (logGrows_credNeutral D).factoryReset (logs_wipe fun _ => Event.Work.inner)

theorem log_isPrefix {P : Event → Prop} {w w' : World} (h : (logs P).rel w w') :
    w.log <+: w'.log := by
  obtain ⟨evs, hlog, -⟩ := h
  exact hlog ▸ List.prefix_append _ _

theorem World.log_prefix_flushed (w : World) (m : Mutator) (e : Env) (ok : Bool) :
    w.log <+: (w.flushed m e ok).log :=
  log_isPrefix (logs_flushed (fun _ => Event.Work.inner) w m e ok)

/-! ### Invariants under a condition on the log -/

section While

variable {ε α : Type} {Ok : List Event → Prop} {I C : World → Prop} {hIC : ∀ w, I w → C w}

/-- The frame that keeps `I`, and `C` where the process dies, for as long as the log is
`Ok`. -/
def whileOk (Ok : List Event → Prop) (I C : World → Prop) (h : ∀ w, I w → C w) : Frame World :=
  Frame.invariantOr (fun w => Ok w.log → I w) (fun w => Ok w.log → C w)
    fun w hw hok => h w (hw hok)

variable (hOk : ∀ l l' : List Event, l <+: l' → Ok l' → Ok l)

include hOk

/-- A change of state, when what is `Ok` was `Ok` before. -/
theorem whileOk_rel {w w' : World} (hlog : w.log <+: w'.log) (h : Ok w'.log → I w → I w') :
    (whileOk Ok I C hIC).rel w w' :=
  fun hw hok => h hok (hw (hOk _ _ hlog hok))

/-- A procedure, when what is `Ok` was `Ok` before. -/
theorem run_whileOk {m : Cmd ε α} {w : World} {Q : α → World → Prop} {E : ε → World → Prop}
    (hgrow : Guarantees logGrows m)
    (h : Ok w.log → m.Run w (fun a w' => Ok w'.log → Q a w') (fun r w' => Ok w'.log → E r w')
      fun w' => Ok w'.log → C w') :
    m.Run w (fun a w' => Ok w'.log → Q a w') (fun r w' => Ok w'.log → E r w')
      fun w' => Ok w'.log → C w' :=
  run_iff.mpr ⟨fun _ _ hm hok => (h (hOk _ _ (log_isPrefix (hgrow.apply hm)) hok)).ok hm hok,
    fun _ _ hm hok => (h (hOk _ _ (log_isPrefix (hgrow.apply hm)) hok)).err hm hok,
    fun _ hm hok => (h (hOk _ _ (log_isPrefix (hgrow.apply hm)) hok)).died hm hok⟩

theorem guarantees_whileOk {m : Cmd ε α} (hgrow : Guarantees logGrows m)
    (h : ∀ w, Ok w.log → I w → m.Run w (fun _ w' => Ok w'.log → I w') (fun _ w' => Ok w'.log → I w')
      fun w' => Ok w'.log → C w') : Guarantees (whileOk Ok I C hIC) m :=
  Guarantees.of_invariantOr fun w hw => run_whileOk hOk hgrow fun hok => h w hok (hw hok)

end While

/-! ### Calls -/

/-- An answer without authenticator data and without a U2F signature. -/
def Answer.Plain : Answer → Prop
  | .cbor (.attestation _ _) | .cbor (.assertion _ _ _ _ _) | .u2f (.signed _ _ _) => False
  | _ => True

/-- The world a command proper begins in: every CBOR command but getNextAssertion has dropped
the pending list. -/
def World.entered (b : World) : Call → World
  | .cbor (cmd :: _) => if cmd = 0x08 then b else { b with next := none }
  | _ => b

section Answer

variable {b : World} {c : Call} {Q : Answer → World → Prop} {E : Refusal → World → Prop}
  {C : World → Prop}

/-- What is shown of a command is shown of the call. -/
theorem run_finish {ε α : Type} {m : Cmd ε α} {f : α → Answer} {r : ε → Refusal}
    (h : m.Run b (fun a w' => ∀ e, Q (f a) (w'.withEnv e) ∧ C (w'.withEnv e))
      (fun x => E (r x)) C) :
    (finish m f r).Run b Q E C :=
  run_mapErr.mpr (run_bind.mpr (h.weaken fun _ _ h' => run_bind.mpr
    (run_tick (fun e => (h' e).1) fun e => (h' e).2)))

/-- **The rule of calls.** The four commands that sign for a credential are shown one by one;
of all others it is enough to know a frame. -/
theorem run_answer (h : CallOps D R)
    (hplain : ∀ a w', a.Plain → R.rel (b.entered c) w' → Q a w')
    (hrefuse : ∀ r w', R.rel (b.entered c) w' → E r w')
    (hlost : ∀ w', R.lost (b.entered c) w' → C w')
    (hmake : ∀ body, c = .cbor (0x01 :: body) → (cmdMakeCredential D body).Run
      { b with next := none }
      (fun r w' => ∀ e, Q (.cbor r) (w'.withEnv e) ∧ C (w'.withEnv e)) (fun x => E (.status x)) C)
    (hget : ∀ body, c = .cbor (0x02 :: body) → (cmdGetAssertion D body).Run { b with next := none }
      (fun r w' => ∀ e, Q (.cbor r) (w'.withEnv e) ∧ C (w'.withEnv e)) (fun x => E (.status x)) C)
    (hnext : ∀ rest, c = .cbor (0x08 :: rest) → (cmdGetNextAssertion D).Run b
      (fun r w' => ∀ e, Q (.cbor r) (w'.withEnv e) ∧ C (w'.withEnv e)) (fun x => E (.status x)) C)
    (hsign : ∀ apdu req, c = .u2f apdu → parseApdu apdu = some req → req.cla = 0 → req.ins = 0x02 →
      (u2fAuthenticate D req.p1 req.data).Run b
        (fun r w' => ∀ e, Q (.u2f r) (w'.withEnv e) ∧ C (w'.withEnv e)) (fun x => E (.sw x)) C) :
    (answer D c).Run b Q E C := by
  -- a command with a plain answer
  have hany : ∀ {ε α : Type} {m : Cmd ε α} (f : α → Answer) (r : ε → Refusal),
      Guarantees R m → Returns m (fun a => (f a).Plain) → m.Run (b.entered c)
        (fun a w' => ∀ e, Q (f a) (w'.withEnv e) ∧ C (w'.withEnv e)) (fun x => E (r x)) C := by
    intro ε α m f r hm hf
    refine ((hm.run _).and (hf _)).mono ?_ (fun x w' hw => hrefuse _ w' hw.1)
      fun w' hw => hlost w' hw.1
    rintro a w' ⟨hw, ha⟩ e
    have hw' := R.trans hw (h.toCheckOps.env w' e)
    exact ⟨hplain _ _ ha hw', hlost _ (R.lost_of_rel hw')⟩
  have hdone : ∀ {ε : Type} {m : Cmd ε Unit} (r : ε → Refusal), Guarantees R m →
      b.entered c = b → (finish m (fun _ => .done) r).Run b Q E C := fun r hm hb =>
    run_finish (hb ▸ hany _ r hm fun _ => run_onReturn.mpr fun _ _ _ => trivial)
  cases c with
  | ctlReset => exact hdone _ h.ctlReset rfl
  | ctlSetPin pin => exact hdone _ (h.ctlSetPin pin) rfl
  | ctlDelete credId => exact hdone _ (h.ctlDelete credId) rfl
  | setSerial serial => exact hdone _ (h.setSerial serial) rfl
  | tpmParams => exact run_finish (hany _ _ h.tpmStateOrCreate fun _ =>
      run_onReturn.mpr fun _ _ _ => trivial)
  | u2f apdu =>
    refine run_finish (run_bind.mpr (run_require.mpr ⟨fun _ => ?_,
      fun _ => hrefuse _ _ (R.refl b)⟩))
    rcases hreq : parseApdu apdu with _ | req
    · exact hrefuse _ _ (R.refl b)
    refine run_bind.mpr (run_require.mpr ⟨fun hcla => ?_, fun _ => hrefuse _ _ (R.refl b)⟩)
    refine run_ite.mpr ⟨fun _ => hany _ _ (Guarantees.pure _) (Returns.pure trivial), fun _ => ?_⟩
    refine run_ite.mpr ⟨fun _ => ?_, fun _ => run_ite.mpr ⟨fun hins => ?_, fun _ => ?_⟩⟩
    · refine hany _ _ (h.u2fRegister _) ((u2fRegister_returns _).mono ?_)
      rintro r ⟨_, _, _, _, rfl⟩
      trivial
    · exact hsign apdu req rfl hreq (of_decide_eq_true hcla) hins
    · exact hrefuse _ _ (R.refl b)
  | cbor request =>
    refine run_finish ?_
    rcases request with _ | ⟨cmd, body⟩
    · exact hrefuse _ _ (R.refl b)
    refine run_ite.mpr ⟨fun h8 => hnext body (by rw [h8]), fun h8 => ?_⟩
    have hb : b.entered (.cbor (cmd :: body)) = { b with next := none } := if_neg h8
    rw [hb] at hany hrefuse
    refine run_bind.mpr (run_modify.mpr ?_)
    refine run_ite.mpr ⟨fun _ => hany _ _ (Guarantees.gets _) (Returns.gets fun _ => trivial),
      fun _ => run_ite.mpr ⟨fun h1 => hmake body (by rw [h1]), fun _ => ?_⟩⟩
    refine run_ite.mpr ⟨fun h2 => hget body (by rw [h2]), fun _ => ?_⟩
    refine run_ite.mpr ⟨fun _ => hany _ _ h.cmdReset ?_, fun _ => run_ite.mpr
      ⟨fun _ => ?_, fun _ => ?_⟩⟩
    · exact Returns.bind_right fun _ => Returns.bind_right fun _ => Returns.pure trivial
    · refine hany _ _ (h.handle body) ((PinManager.handle_returns body).mono ?_)
      intro r hr
      cases r <;> trivial
    · refine run_ite.mpr ⟨fun _ => hany _ _ h.cmdAuthenticatorSelection ?_, fun _ => ?_⟩
      · exact Returns.bind_right fun _ => Returns.pure trivial
      · exact hrefuse _ _ (R.refl _)

end Answer

/-! ### Runs -/

/-- The rule of a call: its answer, its refusal, or the restart after its death. -/
theorem World.call_of_run {w : World} {c : Call} {env : Env} {P : World → Prop}
    (h : (Swpasskey.answer D c).Run (w.begin c env) (fun a w' => P (w'.emits [.answered c a]))
      (fun r w' => P (w'.emits [.refused c r])) fun w' => P w'.restart) : P (w.call D c env) := by
  rw [run_iff] at h
  unfold World.call
  rcases hw : Swpasskey.answer D c (w.begin c env) with ⟨a | r | _, w'⟩
  · exact h.1 a w' hw
  · exact h.2.1 r w' hw
  · exact h.2.2 w' hw

/-- No step takes anything back from the log. -/
theorem Step.log_isPrefix (w : World) (s : Step) : w.log <+: (s.exec D w).log := by
  cases s with
  | restart env => exact List.prefix_append _ _
  | call c env =>
    have hbegin : w.log <+: (w.begin c env).log := List.prefix_append _ _
    have hlog : ∀ w', logGrows.rel (w.begin c env) w' → w.log <+: w'.log := fun w' h =>
      hbegin.trans (Swpasskey.log_isPrefix h)
    exact World.call_of_run (P := fun w' => w.log <+: w'.log)
      ((((logGrows_pieces D).answer c).run (w.begin c env)).mono
        (fun _ w' h => (hlog w' h).trans (List.prefix_append _ _))
        (fun _ w' h => (hlog w' h).trans (List.prefix_append _ _))
        fun w' h => (hlog w' h).trans (List.prefix_append _ _))

/-- What has happened in the first part of a run has happened. -/
theorem World.log_isPrefix_run (pre : List Step) {steps : List Step} (w : World) :
    (w.run D pre).log <+: (w.run D (pre ++ steps)).log := by
  have hsteps : ∀ (steps : List Step) (w : World), w.log <+: (w.run D steps).log := by
    intro steps
    induction steps with
    | nil => exact fun w => List.prefix_refl _
    | cons s steps ih => exact fun w => (Step.log_isPrefix w s).trans (ih _)
  rw [World.run, World.run, List.foldl_append]
  exact hsteps steps _

/-- **The rule of invariants.** What a fresh installation has, and a call and a restart
keep, every run keeps. -/
theorem World.run_induction {I : World → Prop} (hcall : ∀ w c env, I w → I (w.call D c env))
    (hrestart : ∀ w e, I w → I (w.withEnv e).restart) (steps : List Step) {w : World} (h : I w) :
    I (w.run D steps) := by
  induction steps generalizing w with
  | nil => exact h
  | cons s steps ih =>
    refine ih ?_
    cases s with
    | call c env => exact hcall w c env h
    | restart env => exact hrestart w env h

/-- Every step of a run is taken in a state in which `P` holds of it. -/
def World.Along (D : Device) (P : World → Step → Prop) : World → List Step → Prop
  | _, [] => True
  | w, s :: steps => P w s ∧ World.Along D P (s.exec D w) steps

/-- **The rule of invariants along a run.** What a step keeps when `P` holds of it, a run keeps
along which `P` holds. -/
theorem World.Along.induction {P : World → Step → Prop} {I : World → Prop}
    (hstep : ∀ w s, P w s → I w → I (s.exec D w)) {steps : List Step} {w : World}
    (h : w.Along D P steps) (hw : I w) : I (w.run D steps) := by
  induction steps generalizing w with
  | nil => exact hw
  | cons s steps ih => exact ih h.2 (hstep w s h.1 hw)

theorem World.Along.and {P Q : World → Step → Prop} {steps : List Step} {w : World}
    (h : w.Along D P steps) (h' : w.Along D Q steps) :
    w.Along D (fun w s => P w s ∧ Q w s) steps := by
  induction steps generalizing w with
  | nil => trivial
  | cons s steps ih => exact ⟨⟨h.1, h'.1⟩, ih h.2 h'.2⟩

/-- An event at the beginning or the end of a call. -/
def Event.Boundary : Event → Prop
  | called _ | answered _ _ | refused _ _ => True
  | _ => False

/-- **The rule of invariants under a condition.** As long as the log is `Ok`, a run keeps
what the pieces of its calls keep. -/
theorem World.run_whileOk {Ok : List Event → Prop} {I C : World → Prop} {hIC : ∀ w, I w → C w}
    (hOk : ∀ l l' : List Event, l <+: l' → Ok l' → Ok l) (h : Pieces D (whileOk Ok I C hIC))
    (henv : ∀ w e, I w → I (w.withEnv e))
    (hevent : ∀ (w : World) ev, ev.Boundary → I w → I (w.emits [ev]))
    (hrestart : ∀ w : World, Ok w.restart.log → C w → I w.restart) {w : World} (hw : I w)
    (steps : List Step) : Ok (w.run D steps).log → I (w.run D steps) := by
  refine World.run_induction (I := fun w => Ok w.log → I w) (fun w c env hw => ?_)
    (fun w e hw hok => ?_) steps fun _ => hw
  · -- the law holds of the longer history, hence of the shorter one
    have hbegin : Ok (w.begin c env).log → I (w.begin c env) := fun hok =>
      hevent (w.withEnv env) _ trivial (henv _ _ (hw (hOk _ _ (List.prefix_append _ _) hok)))
    refine World.call_of_run (P := fun w => Ok w.log → I w) (((h.answer c).run _).mono ?_ ?_ ?_)
    · intro a w' hw' hok
      exact hevent _ _ trivial (hw' hbegin (hOk _ _ (List.prefix_append _ _) hok))
    · intro r w' hw' hok
      exact hevent _ _ trivial (hw' hbegin (hOk _ _ (List.prefix_append _ _) hok))
    · intro w' hw' hok
      exact hrestart _ hok (hw' hbegin (hOk _ _ (List.prefix_append _ _) hok))
  · exact hrestart _ hok (hIC _ (henv _ _ (hw (hOk _ _ (List.prefix_append _ _) hok))))

end Swpasskey
