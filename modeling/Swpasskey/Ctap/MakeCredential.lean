import Swpasskey.Ctap.Keys

/-!
# authenticatorMakeCredential

`cmd_make_credential`, cut where the source goes from checking to creating: everything up
to the store-full check is `makeCredentialChecks`, what follows is `createCredential`.
-/

namespace Swpasskey

open Proc Cbor

variable (D : Device)

/-- `parse` and the checks of the request alone. -/
def makeCredentialRequest (body : Bytes) : Except Status MakeCredentialRequest := do
  let q ← Reader.parseWith Requests.parseMakeCredential body
  if q.enterpriseAttestation then throw .invalidParameter
  if q.rp.id.isEmpty || q.rp.id.length > 255 then throw .invalidParameter
  if q.user.id.length > 64 then throw .limitExceeded
  if !q.hasEs256 then throw .unsupportedAlgorithm
  if q.options.up = some false then throw .invalidOption
  if q.options.rk = some false then throw .unsupportedOption
  if q.options.uv = some true then throw .invalidOption
  if q.ext.credProtect.any (· > 1) then throw .unsupportedExtension
  return q

/-- An id of the excludeList is stored for this RP. -/
def excluded (s : Store) (rpIdHash : Block 32) (l : List PubKeyCredDescriptor) : Bool :=
  l.any fun d => d.type = ascii "public-key" && (s.find rpIdHash d.id).isSome

/-- Everything `cmd_make_credential` does before it makes a key: the request, whose UV flag
comes along, has been authorised and approved and there is room for a row. -/
def makeCredentialChecks (body : Bytes) : Cmd Status (MakeCredentialRequest × Bool) := do
  let q ← ofExcept (makeCredentialRequest body)
  let rpIdHash := D.provider.sha256 q.rp.id
  let uv ← checkPinAuth D q.pinUvAuthParam q.pinUvAuthProtocol q.clientDataHash PinManager.kPermMc
    q.rp.id rpIdHash true
  let isExcluded := excluded (← gets World.store) rpIdHash q.excludeList
  let display := if q.user.displayName.isEmpty then q.user.name else q.user.displayName
  let decision ← confirmUp .makeCredential q.rp.id display rpIdHash
  require (decision ≠ .cancelled) .keepaliveCancel
  require (!isExcluded) .credentialExcluded
  decision.require
  require ((← gets World.store).remaining ≠ 0) .keyStoreFull
  return (q, uv)

/-- A row that a new discoverable credential for the same RP and user replaces: its key is
destroyed, **then** it is erased, and a failure to erase it is ignored. -/
def replaceRow (old : Credential) : Cmd Status Unit := do
  destroyKey D old
  let _ ← (Store.erase old.credId.bytes).attempt

/-- The rows of `c`'s account: those its `put` is preceded by the erasure of. -/
def Store.sameAccount (s : Store) (c : Credential) : List Credential :=
  (s.findByRp c.rpIdHash).filter fun old => old.userId = c.userId

/-- The packed self-attestation over the new row. -/
def attest (q : MakeCredentialRequest) (uv : Bool) (key : SigningKey) (c : Credential) :
    Cmd Status Reply := do
  let extensions :=
    if q.ext.hmacCreateSecret then encodeMap [(encodeTstr (ascii "hmac-secret"), encodeBool true)]
    else []
  let authData : AuthData := {
    rpIdHash := c.rpIdHash
    flags := kFlagUp ||| kFlagAt ||| (if uv then kFlagUv else 0) |||
      (if extensions.isEmpty then 0 else kFlagEd)
    signCount := c.signCount
    attested := some (D.aaguid, c.credId, c.pub)
    extensions }
  let sig ← signDer key (authData.bytes ++ q.clientDataHash.bytes)
  return .attestation authData sig

/-- `put`, or the destruction of the new key when the row cannot be stored. -/
def storeRow (c : Credential) : Cmd Status Unit := do
  match ← (Store.put c).attempt with
  | .ok () => pure ()
  | .error e => do
    destroyKey D c
    throw (if e = .keyStoreFull then .keyStoreFull else .other)

/-- The row a makeCredential request asks for, still without a key. -/
def MakeCredentialRequest.template (q : MakeCredentialRequest) : Credential :=
  Credential.template q.rp.id (D.provider.sha256 q.rp.id) q.rp.name q.user true

/-- `cmd_make_credential` from the key generation on. -/
def createCredential (q : MakeCredentialRequest) (uv : Bool) : Cmd Status Reply := do
  let (key, c) ← createRow D (q.template D)
  forEach (replaceRow D) ((← gets World.store).sameAccount c)
  storeRow D c
  attest D q uv key c

/-- `cmd_make_credential`. -/
def cmdMakeCredential (body : Bytes) : Cmd Status Reply := do
  let (q, uv) ← makeCredentialChecks D body
  createCredential D q uv

/-! ### What each one can do -/

section Rules

variable {D} {w : World} {C : World → Prop}

theorem cmdMakeCredential_returns (body : Bytes) :
    Returns (cmdMakeCredential D body) fun r => ∃ authData sig, r = .attestation authData sig :=
  Returns.bind_right fun _ => Returns.bind_right fun _ => Returns.bind_right fun _ =>
    Returns.bind_right fun _ => Returns.bind_right fun _ => Returns.bind_right fun sig =>
      Returns.pure ⟨_, sig, rfl⟩

/-- **What `storeRow` can do.** It stores the row; or the row is refused or cannot be saved,
the rows are as they were, and the row's key is destroyed. -/
theorem run_storeRow {c : Credential} {Q : Unit → World → Prop} {E : Status → World → Prop}
    (hok : ∀ e, Store.validate c = .ok () →
      Q () ((w.withCreds (Store.putRows c w.store.creds)).flushed .put e true))
    (hrefuse : ∀ r, (destroyKey D c).Run w (fun _ => E r) E C)
    (herr : ∀ r e, (destroyKey D c).Run (w.flushed .put e false) (fun _ => E r) E C)
    (hC : ∀ e, C ((w.withCreds (Store.putRows c w.store.creds)).withEnv e)) :
    (storeRow D c).Run w Q E C := by
  rw [storeRow, run_bind, run_attempt]
  refine Store.run_put (fun r => ?_) (fun e hvalid _ => hok e hvalid) (fun e => ?_) hC
  · exact (hrefuse _).bind fun _ _ h => h
  · exact (herr _ e).bind fun _ _ h => h

/-- **What `replaceRow` can do** to a row that is found by its id: the key is destroyed, and
then the row erased or put back at the end. -/
theorem run_replaceRow {old : Credential} {Q : Unit → World → Prop} {E : Status → World → Prop}
    (hfound : w.store.findById old.credId.bytes = some old)
    (hdestroy : ∀ e l, l = [] ∨ l = [Event.keyDestroyed old.backend old.keyRef,
        .secretDestroyed old.backend old.credRandom] →
      let w' := (w.withEnv e).emits l
      ∀ e', Q () ((w'.withCreds (Store.eraseRows old.credId.bytes w.store.creds)).flushed .erase
          e' true) ∧
        Q () ((w'.withCreds (Store.eraseRows old.credId.bytes w.store.creds ++ [old])).flushed
          .erase e' false) ∧
        C ((w'.withCreds (Store.eraseRows old.credId.bytes w.store.creds)).withEnv e'))
    (hC : ∀ e, C (w.withEnv e) ∧ C ((w.withEnv e).emits [.keyDestroyed old.backend old.keyRef])) :
    (replaceRow D old).Run w Q E C := by
  -- the outcome of the erase is ignored
  have herase : ∀ e l, l = [] ∨ l = [Event.keyDestroyed old.backend old.keyRef,
      .secretDestroyed old.backend old.credRandom] →
      ((Store.erase old.credId.bytes).attempt >>= fun _ => pure () : Cmd Status Unit).Run
        ((w.withEnv e).emits l) Q E C := by
    intro e l hl
    have hrow : ((w.withEnv e).emits l).store.findById old.credId.bytes = some old := hfound
    rw [run_bind, run_attempt]
    refine Store.run_erase (fun hc => ?_) (fun c e' hc => ?_) (fun c e' hc => ?_) fun c e' hc => ?_
    · exact absurd (hrow.symm.trans hc) (by simp)
    · exact (hdestroy e l hl e').1
    · obtain rfl : old = c := Option.some.inj (hrow.symm.trans hc)
      exact (hdestroy e l hl e').2.1
    · exact (hdestroy e l hl e').2.2
  rw [replaceRow, run_bind]
  refine run_destroyKey (fun _ => ?_) (fun e _ => herase e _ (.inr rfl)) (fun e => (hC e).1)
    fun e => (hC e).2
  have hnil := herase w.env [] (.inl rfl)
  rwa [World.emits_nil] at hnil

end Rules

end Swpasskey
