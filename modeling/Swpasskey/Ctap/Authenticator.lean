import Swpasskey.Ctap.U2f

/-!
# The authenticator and its runs

`Authenticator`: the dispatch of `handle_cbor`, reset and selection, the control-socket
entry points, and what a sequence of calls does. One lock serialises all entry points, so a
run is a list of steps: a call with the environment that answers it, or a restart. A call
whose process dies half-way is a restart at that point.
-/

namespace Swpasskey

open Proc

variable (D : Device)

/-! ### The remaining commands -/

/-- `Authenticator::get_info`. -/
def getInfo (w : World) : GetInfoSnapshot where
  versions := [ascii "FIDO_2_1", ascii "FIDO_2_0"] ++
    (if D.u2fEnabled then [ascii "U2F_V2"] else [])
  extensions := [ascii "hmac-secret"]
  aaguid := D.aaguid
  clientPin := PinManager.pinSet w
  pinUvAuthToken := true
  pinProtocols := [2]
  remainingDiscoverable := UInt32.ofNat w.store.remaining

/-- A prompt without an RP, which must be allowed. -/
def confirmLocal (kind : PresenceKind) : Cmd Status Unit := do
  let d ← confirmUp kind [] [] (Block.replicate 32 0)
  d.require

/-- `cmd_reset` once the user has approved. -/
def resetApproved : Cmd Status Unit := do
  dropNext
  (Store.factoryReset (destroyKey D)).orFail .other
  let _ ← PinManager.regenerateKeyAgreement.attempt
  (reinitAfterReset D).orFail .other

/-- `cmd_reset`. -/
def cmdReset : Cmd Status Reply := do
  confirmLocal .reset
  resetApproved D
  return .empty

/-- `cmd_authenticator_selection`. -/
def cmdAuthenticatorSelection : Cmd Status Reply := do
  confirmLocal .selection
  return .empty

/-- `handle_cbor`: every command but getNextAssertion drops the pending list. -/
def handleCbor (request : Bytes) : Cmd Status Reply :=
  match request with
  | [] => throw .invalidLength
  | cmd :: body =>
    if cmd = 0x08 then cmdGetNextAssertion D
    else do
      dropNext
      if cmd = 0x04 then gets fun w => .info (encodeGetInfo (getInfo D w))
      else if cmd = 0x01 then cmdMakeCredential D body
      else if cmd = 0x02 then cmdGetAssertion D body
      else if cmd = 0x07 then cmdReset D
      else if cmd = 0x06 then PinManager.handle D body
      else if cmd = 0x0B then cmdAuthenticatorSelection
      else throw .invalidCommand

/-! ### The control socket -/

/-- `ctl_reset`. -/
def ctlReset : Cmd Status Unit := cmdReset D >>= fun _ => pure ()

/-- `ctl_set_pin`. -/
def ctlSetPin (pin : Bytes) : Cmd Status Unit := do
  confirmLocal .setPin
  PinManager.setPinLocal D pin

/-- `ctl_delete`: the key is destroyed, then the row erased. -/
def ctlDelete (credId : Bytes) : Cmd Status Unit := do
  match (← gets World.store).findById credId with
  | none => throw .invalidCredential
  | some row =>
    destroyKey D row
    dropNext
    Store.erase credId

/-! ### Runs -/

/-- A command as a call: between its last effect and its answer the process may still
die. -/
def finish {ε α : Type} (m : Cmd ε α) (f : α → Answer) (r : ε → Refusal) : Cmd Refusal Answer :=
  (m >>= fun a => tick >>= fun _ => pure (f a)).mapErr r

/-- What a call does. -/
def answer : Call → Cmd Refusal Answer
  | .cbor request => finish (handleCbor D request) .cbor .status
  | .u2f apdu => finish (handleU2f D apdu) .u2f .sw
  | .ctlReset => finish (ctlReset D) (fun _ => .done) .status
  | .ctlSetPin pin => finish (ctlSetPin D pin) (fun _ => .done) .status
  | .ctlDelete credId => finish (ctlDelete D credId) (fun _ => .done) .status
  | .setSerial serial => finish (Store.setSerial serial) (fun _ => .done) .status
  | .tpmParams => finish Store.tpmStateOrCreate (fun _ => .done) .status

namespace World

/-- A new process: it opens what the persister holds and makes a new PIN manager. -/
def restart (w : World) : World :=
  { w with
    store := w.file.getD {}
    next := none
    pin := { ka := w.env.ecdhKey.head }
    log := w.log ++ [.restarted] }

/-- The world a call begins in. -/
def begin (w : World) (c : Call) (env : Env) : World :=
  { w with env := env, log := w.log ++ [.called c] }

/-- One call, with the environment that answers it. -/
def call (w : World) (c : Call) (env : Env) : World :=
  match answer D c (w.begin c env) with
  | (.ok a, w') => w'.emits [.answered c a]
  | (.err r, w') => w'.emits [.refused c r]
  | (.died, w') => w'.restart

end World

/-- A step of a run. -/
inductive Step
  | call (c : Call) (env : Env)
  | restart (env : Env)

/-- What a step does. -/
def Step.exec (w : World) : Step → World
  | .call c env => w.call D c env
  | .restart env => { w with env := env }.restart

/-- The state after a run. -/
def World.run (w : World) (steps : List Step) : World := steps.foldl (Step.exec D) w

/-- A new installation: an empty store, nothing saved. -/
def World.fresh (env : Env) : World := { env := env, pin := { ka := env.ecdhKey.head } }

/-! ### Requests of concrete runs -/

namespace Call

open Cbor

/-- The entries every makeCredential has, with an all-zero client data hash. -/
def makeCredentialEntries (rpId userId : Bytes) : List Entry :=
  [(encodeInt 1, encodeBstr (List.replicate 32 0)),
    (encodeInt 2, encodeMap [(encodeTstr (ascii "id"), encodeTstr rpId)]),
    (encodeInt 3, encodeMap [(encodeTstr (ascii "id"), encodeBstr userId)]),
    (encodeInt 4, encodeArrayHeader 1 ++ encodeMap
      [(encodeTstr (ascii "alg"), encodeInt (-7)),
        (encodeTstr (ascii "type"), encodeTstr (ascii "public-key"))])]

/-- The parameters of a makeCredential for an RP and a user. -/
def makeCredentialBody (rpId userId : Bytes) : Bytes :=
  encodeMap (makeCredentialEntries rpId userId)

/-- A makeCredential for an RP and a user. -/
def makeCredential (rpId userId : Bytes) : Call := .cbor (0x01 :: makeCredentialBody rpId userId)

/-- getAssertion for an RP, with an all-zero client data hash. -/
def getAssertion (rpId : Bytes) : Call :=
  .cbor <| 0x02 :: encodeMap
    [(encodeInt 1, encodeTstr rpId), (encodeInt 2, encodeBstr (List.replicate 32 0))]

/-- A makeCredential with a pinUvAuthParam. -/
def makeCredentialWith (rpId userId param : Bytes) : Call :=
  .cbor <| 0x01 :: encodeMap (makeCredentialEntries rpId userId ++
    [(encodeInt 8, encodeBstr param), (encodeInt 9, encodeInt 2)])

/-- A clientPIN command with an all-zero key-agreement key. -/
def clientPin (sub : ℤ) (entries : List Entry) : Call :=
  .cbor <| 0x06 :: encodeMap ([(encodeInt 1, encodeInt 2), (encodeInt 2, encodeInt sub),
    (encodeInt 3, encodeCoseEcdh ⟨Block.replicate 32 0, Block.replicate 32 0⟩)] ++ entries)

/-- clientPIN setPIN. -/
def setPin (newPinEnc pinAuth : Bytes) : Call :=
  clientPin 3 [(encodeInt 4, encodeBstr pinAuth), (encodeInt 5, encodeBstr newPinEnc)]

/-- clientPIN getPinToken. -/
def getPinToken (pinHashEnc : Bytes) : Call := clientPin 5 [(encodeInt 6, encodeBstr pinHashEnc)]

/-- getNextAssertion. -/
def getNextAssertion : Call := .cbor [0x08]

/-- A U2F authentication that enforces user presence, with an all-zero challenge. -/
def u2fSign (application keyHandle : Block 32) : Call :=
  .u2f <| [0x00, 0x02, kAuthEnforce, 0x00, 97] ++ List.replicate 32 0 ++
    application.bytes ++ [32] ++
    keyHandle.bytes

end Call

end Swpasskey
