import Swpasskey.Ctap.ClientPin

/-!
# User presence, PIN authorisation and keys

What the commands share: `confirm_up`, `check_pin_auth`, the calls into the key backends,
and the making of a new row.
-/

namespace Swpasskey

open Proc

variable (D : Device)

/-! ### User presence and PIN authorisation -/

/-- The status of a prompt that was not answered with Allow. -/
def Decision.require : Decision → Cmd Status Unit
  | allow => pure ()
  | deny => throw .operationDenied
  | timeout => throw .userActionTimeout
  | cancelled => throw .keepaliveCancel

/-- `confirm_up`: a call that is already cancelled shows no prompt. -/
def confirmUp {ε : Type} (kind : PresenceKind) (rpId userDisplay : Bytes) (rpIdHash : Block 32) :
    Cmd ε Decision := do
  if ← isCancelled then return .cancelled
  else
    let d ← askDecision
    emit (.prompted ⟨kind, rpId, userDisplay, rpIdHash⟩ d)
    return d

/-- `check_pin_auth`: the UV flag to set. A zero-length parameter is a "touch to select"
probe: it collects a touch and fails either way. -/
def checkPinAuth (param : Option Bytes) (protocol : Option UInt64) (clientDataHash : Block 32)
    (permission : UInt8) (rpId : Bytes) (rpIdHash : Block 32) (isMake : Bool) :
    Cmd Status Bool := do
  match param with
  | none =>
    require (!(isMake && (← gets PinManager.pinSet))) .puattRequired
    return false
  | some param =>
    match protocol with
    | none => throw .missingParameter
    | some protocol =>
      require (protocol = 2) .invalidParameter
      if param.isEmpty then
        let d ← confirmUp (if isMake then .makeCredential else .getAssertion) rpId [] rpIdHash
        match d with
        | .cancelled => throw .keepaliveCancel
        | .allow => throw (if ← gets PinManager.pinSet then .pinInvalid else .pinNotSet)
        | _ => throw .operationDenied
      else PinManager.verify D param protocol clientDataHash permission rpId

/-! ### Key backends -/

/-- Key material as the key of a backend. -/
def KeyMaterial.key (m : KeyMaterial) (kind : BackendKind) : SigningKey :=
  ⟨kind, m.pub, if kind = .software then m.scalar.bytes else m.handle⟩

/-- `KeyBackend::generate`. -/
def generateKey (kind : BackendKind) : Cmd Status SigningKey := do
  match ← askGenerate with
  | none => throw .other
  | some m => do
    emit (.keyCreated kind (m.key kind).ref)
    return m.key kind

/-- `sign_der`. -/
def signDer (key : SigningKey) (message : Bytes) : Cmd Status Bytes := do
  match (← askSign) key message with
  | some sig => return sig
  | none => throw .other

/-- The wrapped form of a secret: the software backend keeps it as it is. -/
def wrappedSecret (kind : BackendKind) (secret : Bytes) : Cmd Status Bytes := do
  if kind = .software then return secret
  else match (← askWrap) secret with
    | some wrapped => return wrapped
    | none => throw .other

/-- `wrap_secret`. -/
def wrapSecret (kind : BackendKind) (secret : Bytes) : Cmd Status Bytes := do
  let wrapped ← wrappedSecret kind secret
  emit (.secretCreated kind wrapped)
  return wrapped

/-- `unwrap_secret`. -/
def unwrapSecret (kind : BackendKind) (wrapped : Bytes) : Cmd Status Bytes := do
  if kind = .software then return wrapped
  else match (← askUnwrap) wrapped with
    | some secret => return secret
    | none => throw .other

/-- `load_key`. -/
def loadKey (c : Credential) : Cmd Status SigningKey := do
  if c.backend = .software then
    require (c.priv.length = 32) .invalidParameter
    require (← askLoad) .other
    return ⟨.software, c.pub, c.priv⟩
  else
    require (D.primaryKind = c.backend) .invalidCredential
    require (← askLoad) .invalidCredential
    return ⟨c.backend, c.pub, c.handle⟩

/-- `destroy_key`: the results are ignored; a row of another backend is left alone. -/
def destroyKey (c : Credential) : Cmd Status Unit := do
  if c.backend = .software ∨ D.primaryKind = c.backend then
    tick
    emit (.keyDestroyed c.backend c.keyRef)
    tick
    emit (.secretDestroyed c.backend c.credRandom)
  else return ()

/-- `reinit_after_reset`: the TPM backend makes itself a new seed, the others do nothing. -/
def reinitAfterReset : Cmd Status Unit := do
  if D.primaryKind = .tpm2 then
    let _ ← Store.tpmStateOrCreate
    require (← askReinit) .other
  else return ()

/-- A default-initialised `Credential` with the given entities. -/
def Credential.template (rpId : Bytes) (rpIdHash : Block 32) (rpName : Bytes) (user : UserEntity)
    (rk : Bool) : Credential where
  rpId := rpId
  rpIdHash := rpIdHash
  rpName := rpName
  userId := user.id
  userName := user.name
  userDisplay := user.displayName
  credId := Block.replicate 32 0
  pub := ⟨Block.replicate 32 0, Block.replicate 32 0⟩
  rk := rk

/-- The template with a key, an id and a wrapped credRandom. -/
def Credential.keyed (template : Credential) (key : SigningKey) (credId : Block 32)
    (now : UInt64) (wrapped : Bytes) : Credential :=
  { template with
    credId
    backend := key.kind
    pub := key.pub
    signCount := 1
    createdUnix := now
    lastUsedUnix := now
    priv := if key.kind = .software then key.ref else []
    handle := if key.kind = .software then [] else key.ref
    credRandom := wrapped }

/-- The key and the id of a new row, in makeCredential and in U2F registration: generate on
the primary backend, draw the id, wrap a fresh credRandom. **Nothing is released on the
way out of a failure.** -/
def createRow (template : Credential) : Cmd Status (SigningKey × Credential) := do
  let key ← generateKey D.primaryKind
  let credId ← random 32
  emit (.credIdDrawn credId)
  let now ← nowUnix
  let secret ← random 64
  let wrapped ← wrapSecret D.primaryKind secret.bytes
  emit (.credRandomMade credId secret wrapped)
  return (key, template.keyed key credId now wrapped)

/-! ### What each one can do -/

section Rules

variable {D} {w : World} {C : World → Prop}

theorem quiet_signDer (key : SigningKey) (message : Bytes) : Quiet (signDer key message) := by
  refine (quiet_ask _).bind fun f => ?_
  rcases f key message with _ | sig
  · exact Guarantees.throw _
  · exact Guarantees.pure _

theorem quiet_unwrapSecret (kind : BackendKind) (wrapped : Bytes) :
    Quiet (unwrapSecret kind wrapped) := by
  refine Guarantees.ite (Guarantees.pure _) ((quiet_ask _).bind fun f => ?_)
  rcases f wrapped with _ | secret
  · exact Guarantees.throw _
  · exact Guarantees.pure _

theorem quiet_wrappedSecret (kind : BackendKind) (secret : Bytes) :
    Quiet (wrappedSecret kind secret) := by
  refine Guarantees.ite (Guarantees.pure _) ((quiet_ask _).bind fun f => ?_)
  rcases f secret with _ | wrapped
  · exact Guarantees.throw _
  · exact Guarantees.pure _

/-- The software backend keeps a secret as it is, the others may make anything of it. -/
theorem run_wrappedSecret {kind : BackendKind} {secret : Bytes} {Q : Bytes → World → Prop}
    {E : Status → World → Prop}
    (hok : ∀ wrapped e, (kind = .software → wrapped = secret) → Q wrapped (w.withEnv e))
    (herr : ∀ r e, E r (w.withEnv e)) (hC : ∀ e, C (w.withEnv e)) :
    (wrappedSecret kind secret).Run w Q E C := by
  refine run_ite.mpr ⟨fun _ => hok secret w.env fun _ => rfl, fun hkind => run_bind.mpr ?_⟩
  refine run_ask (fun f e => ?_) hC
  rcases f secret with _ | wrapped
  · exact herr _ e
  · exact hok wrapped e fun h => absurd h hkind

theorem quiet_loadKey (c : Credential) : Quiet (loadKey D c) :=
  Guarantees.ite
    ((Guarantees.require _ _).bind fun _ => (quiet_ask _).bind fun _ =>
      (Guarantees.require _ _).bind fun _ => Guarantees.pure _)
    ((Guarantees.require _ _).bind fun _ => (quiet_ask _).bind fun _ =>
      (Guarantees.require _ _).bind fun _ => Guarantees.pure _)

/-- `Decision.require` goes on only after Allow. -/
theorem run_decision {d : Decision} {Q : Unit → World → Prop} {E : Status → World → Prop}
    (hok : d = .allow → Q () w) (herr : ∀ r, d ≠ .allow → E r w) : d.require.Run w Q E C := by
  cases d with
  | allow => exact hok rfl
  | deny => exact herr _ (by decide)
  | timeout => exact herr _ (by decide)
  | cancelled => exact herr _ (by decide)

/-- `confirm_up` shows no prompt, or logs the answer. -/
theorem run_confirmUp {ε : Type} {kind : PresenceKind} {rpId display : Bytes} {rpIdHash : Block 32}
    {Q : Decision → World → Prop} {E : ε → World → Prop}
    (hcancelled : ∀ e, Q .cancelled (w.withEnv e))
    (hprompt : ∀ d e, Q d ((w.withEnv e).emits [.prompted ⟨kind, rpId, display, rpIdHash⟩ d]))
    (hC : ∀ e, C (w.withEnv e)) :
    (confirmUp kind rpId display rpIdHash : Cmd ε Decision).Run w Q E C
      := by
  rw [confirmUp, run_bind]
  refine run_ask (fun b e => ?_) hC
  refine run_ite.mpr ⟨fun _ => hcancelled e, fun _ => ?_⟩
  rw [run_bind]
  exact run_ask (fun d e => hprompt d e) hC

/-- **What `check_pin_auth` can do.** Without a parameter the answer is `false`; the probe
prompts and fails; otherwise it is what `verify` does. -/
theorem run_checkPinAuth {param : Option Bytes} {protocol : Option UInt64}
    {clientDataHash : Block 32} {permission : UInt8} {rpId : Bytes} {rpIdHash : Block 32}
    {isMake : Bool} {Q : Bool → World → Prop} {E : Status → World → Prop}
    (hrefuse : ∀ r e, E r (w.withEnv e)) (hfalse : param = none → Q false w)
    (hprobe : ∀ r req d e, E r ((w.withEnv e).emits [.prompted req d]))
    (hexpired : ∀ r e, E r (PinManager.withManager (w.withEnv e) { w.pin with token := none }))
    (hok : ∀ t e now touched p, param = some p → w.pin.token = some t → now ≤ t.expiry →
      p = (D.provider.hmacSha256 t.bytes.bytes clientDataHash.bytes).bytes →
      t.permissions &&& permission ≠ 0 → (∀ r, t.permissionsRpId = some r → r = rpId) →
      Q true ((PinManager.withManager (w.withEnv e)
        { w.pin with token := some (PinManager.touch D t rpId touched) }).emits
        [.tokenVerified t.bytes p clientDataHash permission rpId now touched]))
    (hC : ∀ e, C (w.withEnv e)) :
    (checkPinAuth D param protocol clientDataHash permission rpId rpIdHash isMake).Run w Q E C := by
  -- without a parameter the command goes on unverified, or is refused
  rcases param with _ | param
  · rw [checkPinAuth, run_bind, run_gets, run_bind, run_require]
    exact ⟨fun _ => hfalse rfl, fun _ => hrefuse _ w.env⟩
  rcases protocol with _ | protocol
  · exact hrefuse _ w.env
  rw [checkPinAuth, run_bind, run_require]
  refine ⟨fun _ => ?_, fun _ => hrefuse _ w.env⟩
  -- an empty parameter only asks for a touch, and is refused whatever the answer
  refine run_ite.mpr ⟨fun _ => ?_, fun _ => ?_⟩
  · rw [run_bind]
    refine run_confirmUp (fun e => hrefuse _ e) (fun d e => ?_) hC
    cases d with
    | allow => exact hprobe _ _ _ e
    | deny => exact hprobe _ _ _ e
    | timeout => exact hprobe _ _ _ e
    | cancelled => exact hprobe _ _ _ e
  · exact PinManager.run_verify hrefuse hexpired
      (fun t e now touched => hok t e now touched param rfl) hC

theorem run_destroyKey {c : Credential} {Q : Unit → World → Prop} {E : Status → World → Prop}
    (hskip : ¬ (c.backend = .software ∨ D.primaryKind = c.backend) → Q () w)
    (hok : ∀ e, (c.backend = .software ∨ D.primaryKind = c.backend) →
      Q () ((w.withEnv e).emits [.keyDestroyed c.backend c.keyRef,
        .secretDestroyed c.backend c.credRandom]))
    (hC : ∀ e, C (w.withEnv e))
    (hC' : ∀ e, C ((w.withEnv e).emits [.keyDestroyed c.backend c.keyRef])) :
    (destroyKey D c).Run w Q E C := by
  refine run_ite.mpr ⟨fun h => ?_, hskip⟩
  rw [run_bind]
  refine run_tick (fun e => ?_) hC
  rw [run_bind, run_emit, run_bind]
  refine run_tick (fun e => ?_) hC'
  rw [run_emit]
  simpa [World.emits, World.withEnv] using hok e h

/-- The events of a new row's creation, in order. -/
def creation (D : Device) (m : KeyMaterial) (credId : Block 32) (secret : Block 64)
    (wrapped : Bytes) : List Event :=
  [.keyCreated D.primaryKind (m.key D.primaryKind).ref, .credIdDrawn credId,
    .secretCreated D.primaryKind wrapped, .credRandomMade credId secret wrapped]

/-- The creations a failing `createRow` has already made, once it has a key. -/
def PartialCreation (D : Device) (m : KeyMaterial) (l : List Event) : Prop :=
  l = [.keyCreated D.primaryKind (m.key D.primaryKind).ref] ∨
    ∃ credId, l = [.keyCreated D.primaryKind (m.key D.primaryKind).ref, .credIdDrawn credId]

/-- **What `createRow` can do.** It gets no key; or it gets through all three creations; or
it stops after the first or the second. -/
theorem run_createRow {template : Credential} {Q : SigningKey × Credential → World → Prop}
    {E : Status → World → Prop}
    (hok : ∀ m credId now secret wrapped e, w.env.generate.head = some m →
      (D.primaryKind = .software → wrapped = secret.bytes) →
      Q (m.key D.primaryKind, template.keyed (m.key D.primaryKind) credId now wrapped)
        ((w.withEnv e).emits (creation D m credId secret wrapped)))
    (hnone : ∀ r e, w.env.generate.head = none → E r (w.withEnv e)) (hC : ∀ e, C (w.withEnv e))
    (hpart : ∀ m l, w.env.generate.head = some m → PartialCreation D m l → ∀ r e,
      E r ((w.withEnv e).emits l) ∧ C ((w.withEnv e).emits l)) :
    (createRow D template).Run w Q E C := by
  rw [createRow, run_bind, generateKey, run_bind]
  refine run_ask_head (fun e => ?_) hC
  change Run (match w.env.generate.head with | none => _ | some m => _) _ _ _ _
  rcases hm : w.env.generate.head with _ | m
  · exact hnone _ e hm
  -- from here on a failure leaves a key behind
  have h1 := hpart m _ hm (.inl rfl)
  dsimp only
  rw [run_bind, run_emit, run_pure, run_bind]
  refine (quiet_random 32).run_of (fun credId e => ?_) (fun r e => (h1 r e).1) fun e =>
    (h1 .other e).2
  have h2 : ∀ r e, E r (((w.withEnv e).emits
    [.keyCreated D.primaryKind (m.key D.primaryKind).ref]).emits
      [.credIdDrawn credId]) ∧ C (((w.withEnv e).emits
      [.keyCreated D.primaryKind (m.key D.primaryKind).ref]).emits [.credIdDrawn credId]) :=
          fun r e => by
    simpa using hpart m _ hm (.inr ⟨credId, rfl⟩) r e
  rw [run_bind, run_emit, run_bind]
  refine run_ask (fun now e => ?_) fun e => (h2 .other e).2
  rw [run_bind]
  refine (quiet_random 64).run_of (fun secret e => ?_) (fun r e => (h2 r e).1)
    fun e => (h2 .other e).2
  rw [run_bind, wrapSecret, run_bind]
  refine run_wrappedSecret (fun wrapped e hwrapped => ?_) (fun r e => (h2 r e).1)
    fun e => (h2 .other e).2
  have h3 := hok m credId now secret wrapped e hm hwrapped
  rw [run_bind, run_emit, run_pure, run_bind, run_emit, run_pure]
  simpa [creation, World.emits, World.withEnv] using h3

end Rules

end Swpasskey
