import Mathlib.Data.Stream.Defs
import Swpasskey.Ctap.Requests
import Swpasskey.Store.Credential

/-!
# The world of a call

Every entry point of the authenticator is a `Proc` over a `World`: the in-memory credential
store, what the persister holds, the pending assertion list, the PIN manager's state, the
environment of the call and a log of what has happened.

* The **environment** `Env` answers, in order, everything the code asks of the outside: the
  persister, the random generator, the clocks, the cancel token, the user, the key
  backends. Every answer may be a failure. `Env.crash` says after how many of these
  requests the process dies, if it does, so a run over all environments covers a crash
  between any two of them.
* The **log** is append-only and nothing in the code reads it: it is what the statements
  about runs speak of.

The persister is always installed; the control socket's metrics and the log lines of the
source are left out.
-/

namespace Swpasskey

/-! ### What is asked and answered -/

/-- `ui::Decision`. -/
inductive Decision
  | allow | deny | timeout | cancelled
  deriving DecidableEq, Repr

/-- `ui::PresenceRequest::Kind`. -/
inductive PresenceKind
  | makeCredential | getAssertion | reset | setPin | selection
  deriving DecidableEq, Repr

/-- `ui::PresenceRequest`. -/
structure PresenceRequest where
  kind : PresenceKind
  rpId : Bytes
  userDisplay : Bytes
  rpIdHash : Block 32
  deriving DecidableEq

/-- The answers of the outside to one call, each kind of request served in order. -/
structure Env where
  /-- The process dies at the request with this number; `none`: it lives. -/
  crash : Option ℕ
  /-- `Persister::save`. -/
  save : Stream' Bool
  /-- `Persister::reset`: its result, and whether the old file is gone. -/
  reset : Stream' (Bool × Bool)
  /-- `Provider::random`. -/
  random : Stream' (Option ((n : ℕ) → Block n))
  /-- Every other `Provider` call that can fail for want of memory. -/
  crypto : Stream' Bool
  /-- `system_clock`, in seconds. -/
  unixClock : Stream' UInt64
  /-- `steady_clock`. -/
  steadyClock : Stream' ℕ
  /-- `CancelToken::is_cancelled`. -/
  cancelled : Stream' Bool
  /-- How often the body of the failure-delay loop runs. -/
  delayPolls : Stream' ℕ
  /-- `Presence::confirm`. -/
  decision : Stream' Decision
  /-- `KeyBackend::generate`, of either backend. -/
  generate : Stream' (Option KeyMaterial)
  /-- `KeyBackend::load`. -/
  load : Stream' Bool
  /-- `SigningKey::sign_der`. -/
  sign : Stream' (SigningKey → Bytes → Option Bytes)
  /-- `KeyBackend::wrap_secret` of a hardware backend. -/
  wrap : Stream' (Bytes → Option Bytes)
  /-- `KeyBackend::unwrap_secret` of a hardware backend. -/
  unwrap : Stream' (Bytes → Option Bytes)
  /-- The TPM part of `reinit_after_reset`. -/
  reinit : Stream' Bool
  /-- `generate_p256_ephemeral`. -/
  ecdhKey : Stream' (Option EcdhKey)

/-- An environment in which nothing fails, every prompt is allowed, time stands still and
all random bytes are `b`: the base of the concrete runs. -/
def Env.calm (b : UInt8) : Env where
  crash := none
  save := Stream'.const true
  reset := Stream'.const (true, true)
  random := Stream'.const (some fun n => Block.replicate n b)
  crypto := Stream'.const true
  unixClock := Stream'.const 0
  steadyClock := Stream'.const 0
  cancelled := Stream'.const false
  delayPolls := Stream'.const 0
  decision := Stream'.const .allow
  generate := Stream'.const <| some {
    pub := ⟨Block.replicate 32 b, Block.replicate 32 b⟩
    scalar := Block.replicate 32 b
    handle := [b]
    handle_ne_nil := List.cons_ne_nil b [] }
  load := Stream'.const true
  sign := Stream'.const fun _ _ => some [b]
  wrap := Stream'.const some
  unwrap := Stream'.const some
  reinit := Stream'.const true
  ecdhKey := Stream'.const (some ⟨Block.replicate 32 b⟩)

/-! ### Requests, replies and the log -/

/-- The store operation a flush belongs to. -/
inductive Mutator
  | put | erase | updateCountAndUsed | setPin | factoryReset | tpmStateOrCreate
  | clearTpmState | setU2fAttestation | setSerial
  deriving DecidableEq, Repr

/-- authenticatorData before it is laid out in bytes. -/
structure AuthData where
  rpIdHash : Block 32
  flags : UInt8
  signCount : UInt32
  /-- aaguid, credential id and public key, when attested data is present. -/
  attested : Option (Block 16 × Block 32 × P256PublicKey)
  /-- The encoded extensions map; empty when there is none. -/
  extensions : Bytes
  deriving DecidableEq

/-- A successful CBOR response. -/
inductive Reply
  /-- reset, selection, setPIN and changePIN: an empty body. -/
  | empty
  /-- getInfo. -/
  | info (body : Bytes)
  /-- clientPIN getRetries. -/
  | retries (n : UInt8)
  /-- clientPIN getKeyAgreement. -/
  | keyAgreement (pub : P256PublicKey)
  /-- clientPIN getPinToken and its permissions variant: the encrypted token. -/
  | pinToken (enc : Bytes)
  /-- makeCredential. -/
  | attestation (authData : AuthData) (sig : Bytes)
  /-- getAssertion and getNextAssertion. -/
  | assertion (credId : Block 32) (authData : AuthData) (sig : Bytes) (user : UserEntity)
      (numberOfCredentials : Option ℕ)
  deriving DecidableEq

/-- A U2F response with status word `0x9000`. -/
inductive U2fReply
  | version
  | registered (pub : P256PublicKey) (keyHandle : Block 32) (certDer : Bytes) (sig : Bytes)
  | signed (presence : UInt8) (count : UInt32) (sig : Bytes)
  deriving DecidableEq

/-- An operation on the authenticator or, at daemon start-up, on its store. -/
inductive Call
  | cbor (request : Bytes)
  | u2f (apdu : Bytes)
  | ctlReset
  | ctlSetPin (pin : Bytes)
  | ctlDelete (credId : Bytes)
  | setSerial (serial : Bytes)
  | tpmParams
  deriving DecidableEq

/-- A success. -/
inductive Answer
  | cbor (r : Reply)
  | u2f (r : U2fReply)
  | done
  deriving DecidableEq

/-- A failure: a CTAP status or a U2F status word. -/
inductive Refusal
  | status (s : Status)
  | sw (w : UInt16)
  deriving DecidableEq

/-- What the log records. -/
inductive Event
  /-- A call begins. -/
  | called (c : Call)
  /-- A call ends with a success. -/
  | answered (c : Call) (a : Answer)
  /-- A call ends with a failure. -/
  | refused (c : Call) (r : Refusal)
  /-- The process died, or was stopped, and a new one opened the store. -/
  | restarted
  /-- `presence_.confirm` returned. -/
  | prompted (req : PresenceRequest) (d : Decision)
  /-- `persister_->save`, asked for by a store operation. -/
  | flushed (by_ : Mutator) (ok : Bool)
  /-- `persister_->reset`. -/
  | persisterReset (ok wiped : Bool)
  /-- `generate` made the key that `kind` knows as `ref`. -/
  | keyCreated (kind : BackendKind) (ref : Bytes)
  /-- `destroy` was called. -/
  | keyDestroyed (kind : BackendKind) (ref : Bytes)
  /-- `wrap_secret` made a wrapped secret. -/
  | secretCreated (kind : BackendKind) (wrapped : Bytes)
  /-- `destroy_secret` was called. -/
  | secretDestroyed (kind : BackendKind) (wrapped : Bytes)
  /-- The random generator produced a credential id. -/
  | credIdDrawn (credId : Block 32)
  /-- The credRandom generated for a credential, and its wrapped form. -/
  | credRandomMade (credId : Block 32) (secret : Block 64) (wrapped : Bytes)
  /-- setPIN, changePIN or a local set-pin reached `CredentialStore::set_pin`. -/
  | pinInstalled (hash : Block 16)
  /-- `factory_reset` dropped the PIN. -/
  | pinWiped
  /-- `check_pin_hash` compared a candidate against the stored hash. -/
  | pinCompared (hash : Block 16) (equal : Bool)
  /-- `get_token` made a token the current one. -/
  | tokenIssued (bytes : Block 32) (permissions : UInt8) (rpId : Option Bytes) (at_ : ℕ)
  /-- `verify` accepted a parameter under the current token. -/
  | tokenVerified (bytes : Block 32) (param : Bytes) (clientDataHash : Block 32)
      (permission : UInt8) (rpId : Bytes) (checkedAt touchedAt : ℕ)
  deriving DecidableEq

/-! ### The state -/

/-- `detail::AssertionState`: what getNextAssertion goes on from. -/
structure AssertionState where
  remaining : List Credential
  rpIdHash : Block 32
  clientDataHash : Block 32
  flags : UInt8
  bumpCounter : Bool
  ext : ExtensionsIn
  expiry : ℕ
  deriving DecidableEq

/-- `detail::PinUvAuthToken`. -/
structure PinUvAuthToken where
  bytes : Block 32
  permissions : UInt8
  permissionsRpId : Option Bytes
  expiry : ℕ
  deriving DecidableEq

/-- The members of `detail::PinManager`. -/
structure PinManager where
  ka : Option EcdhKey := none
  token : Option PinUvAuthToken := none
  consecutiveFailures : UInt32 := 0
  deriving DecidableEq

/-- The world of a call. -/
structure World where
  /-- The store in memory. -/
  store : Store := {}
  /-- The last plaintext saved. -/
  lastSaved : Option Bytes := none
  /-- The store a new process opens: the last one saved, unless a persister reset has
  removed the file since. -/
  file : Option Store := none
  /-- `next_state_`. -/
  next : Option AssertionState := none
  pin : PinManager := {}
  env : Env
  log : List Event := []

/-- A procedure over the world. -/
abbrev Cmd (ε α : Type) : Type := Proc World ε α

namespace World

/-- The world with `l` appended to the log. -/
def emits (w : World) (l : List Event) : World := { w with log := w.log ++ l }

end World

/-! ### Asking the environment -/

section Ask

open Proc

variable {ε α : Type}

/-- The process dies here if it is time to. -/
def tick : Cmd ε Unit := fun w =>
  match w.env.crash with
  | none => (.ok (), w)
  | some 0 => (.died, w)
  | some (n + 1) => (.ok (), { w with env := { w.env with crash := some n } })

/-- Put one request to the environment. -/
def ask (f : Env → α × Env) : Cmd ε α :=
  tick >>= fun _ w => (.ok (f w.env).1, { w with env := (f w.env).2 })

def askSave : Cmd ε Bool := ask fun e => (e.save.head, { e with save := e.save.tail })

def askReset : Cmd ε (Bool × Bool) := ask fun e => (e.reset.head, { e with reset := e.reset.tail })

def askCrypto : Cmd ε Bool := ask fun e => (e.crypto.head, { e with crypto := e.crypto.tail })

def askDelayPolls : Cmd ε ℕ :=
  ask fun e => (e.delayPolls.head, { e with delayPolls := e.delayPolls.tail })

def askDecision : Cmd ε Decision :=
  ask fun e => (e.decision.head, { e with decision := e.decision.tail })

def askGenerate : Cmd ε (Option KeyMaterial) :=
  ask fun e => (e.generate.head, { e with generate := e.generate.tail })

def askLoad : Cmd ε Bool := ask fun e => (e.load.head, { e with load := e.load.tail })

def askSign : Cmd ε (SigningKey → Bytes → Option Bytes) :=
  ask fun e => (e.sign.head, { e with sign := e.sign.tail })

def askWrap : Cmd ε (Bytes → Option Bytes) :=
  ask fun e => (e.wrap.head, { e with wrap := e.wrap.tail })

def askUnwrap : Cmd ε (Bytes → Option Bytes) :=
  ask fun e => (e.unwrap.head, { e with unwrap := e.unwrap.tail })

def askReinit : Cmd ε Bool := ask fun e => (e.reinit.head, { e with reinit := e.reinit.tail })

def askEcdhKey : Cmd ε (Option EcdhKey) :=
  ask fun e => (e.ecdhKey.head, { e with ecdhKey := e.ecdhKey.tail })

/-- `CancelToken::is_cancelled`. -/
def isCancelled : Cmd ε Bool :=
  ask fun e => (e.cancelled.head, { e with cancelled := e.cancelled.tail })

/-- `Authenticator::now_unix`. -/
def nowUnix : Cmd ε UInt64 :=
  ask fun e => (e.unixClock.head, { e with unixClock := e.unixClock.tail })

/-- `steady_clock::now`. -/
def steadyNow : Cmd ε ℕ :=
  ask fun e => (e.steadyClock.head, { e with steadyClock := e.steadyClock.tail })

/-- `Provider::random` into an array of `n` bytes. -/
def random (n : ℕ) : Cmd Status (Block n) := do
  match ← ask fun e => (e.random.head, { e with random := e.random.tail }) with
  | some f => return f n
  | none => throw .other

/-- Append to the log. -/
def emit (e : Event) : Cmd ε Unit := modify fun w => w.emits [e]

end Ask

/-! ### What asking does to a state -/

/-- The environment after one more request. -/
def Env.ticked (e : Env) : Env := { e with crash := e.crash.map Nat.pred }

/-- The environment after one save. -/
def Env.afterSave (e : Env) : Env := { e.ticked with save := e.save.tail }

/-- The environment after one persister reset. -/
def Env.afterReset (e : Env) : Env := { e.ticked with reset := e.reset.tail }

/-- The answers are those of `s` from some point on. -/
def IsLater {α : Type} (s s' : Stream' α) : Prop := ∃ k, s' = s.drop k

namespace IsLater

variable {α : Type} {s s' s'' : Stream' α}

theorem refl (s : Stream' α) : IsLater s s := ⟨0, rfl⟩

theorem tail (s : Stream' α) : IsLater s s.tail := ⟨1, rfl⟩

theorem trans (h : IsLater s s') (h' : IsLater s' s'') : IsLater s s'' := by
  obtain ⟨k, rfl⟩ := h
  obtain ⟨k', rfl⟩ := h'
  exact ⟨k + k', Stream'.drop_drop _ _ _⟩

/-- What holds of all answers holds of the later ones. -/
theorem forall_get (h : IsLater s s') {P : α → Prop} (hP : ∀ i, P (s.get i)) (i : ℕ) :
    P (s'.get i) := by
  obtain ⟨k, rfl⟩ := h
  rw [Stream'.get_drop]
  exact hP _

end IsLater

/-- What is left of an environment when requests were put to it. -/
structure Env.Later (e e' : Env) : Prop where
  crash : e.crash = none → e'.crash = none
  save : IsLater e.save e'.save
  reset : IsLater e.reset e'.reset
  random : IsLater e.random e'.random
  crypto : IsLater e.crypto e'.crypto
  unixClock : IsLater e.unixClock e'.unixClock
  steadyClock : IsLater e.steadyClock e'.steadyClock
  cancelled : IsLater e.cancelled e'.cancelled
  delayPolls : IsLater e.delayPolls e'.delayPolls
  decision : IsLater e.decision e'.decision
  generate : IsLater e.generate e'.generate
  load : IsLater e.load e'.load
  sign : IsLater e.sign e'.sign
  wrap : IsLater e.wrap e'.wrap
  unwrap : IsLater e.unwrap e'.unwrap
  reinit : IsLater e.reinit e'.reinit
  ecdhKey : IsLater e.ecdhKey e'.ecdhKey

namespace Env.Later

theorem refl (e : Env) : e.Later e := by
  constructor <;> first | exact id | exact IsLater.refl _

theorem trans {e e' e'' : Env} (h : e.Later e') (h' : e'.Later e'') : e.Later e'' where
  crash := h'.crash ∘ h.crash
  save := h.save.trans h'.save
  reset := h.reset.trans h'.reset
  random := h.random.trans h'.random
  crypto := h.crypto.trans h'.crypto
  unixClock := h.unixClock.trans h'.unixClock
  steadyClock := h.steadyClock.trans h'.steadyClock
  cancelled := h.cancelled.trans h'.cancelled
  delayPolls := h.delayPolls.trans h'.delayPolls
  decision := h.decision.trans h'.decision
  generate := h.generate.trans h'.generate
  load := h.load.trans h'.load
  sign := h.sign.trans h'.sign
  wrap := h.wrap.trans h'.wrap
  unwrap := h.unwrap.trans h'.unwrap
  reinit := h.reinit.trans h'.reinit
  ecdhKey := h.ecdhKey.trans h'.ecdhKey

end Env.Later

/-- A request takes at most the next answer of each kind. -/
class Advances {α : Type} (f : Env → α × Env) : Prop where
  later : ∀ e : Env, e.Later (f e).2

instance : Advances fun e : Env => (e.save.head, { e with save := e.save.tail }) :=
  ⟨fun e => { Env.Later.refl e with save := .tail _ }⟩

instance : Advances fun e : Env => (e.reset.head, { e with reset := e.reset.tail }) :=
  ⟨fun e => { Env.Later.refl e with reset := .tail _ }⟩

instance : Advances fun e : Env => (e.random.head, { e with random := e.random.tail }) :=
  ⟨fun e => { Env.Later.refl e with random := .tail _ }⟩

instance : Advances fun e : Env => (e.crypto.head, { e with crypto := e.crypto.tail }) :=
  ⟨fun e => { Env.Later.refl e with crypto := .tail _ }⟩

instance : Advances fun e : Env => (e.unixClock.head, { e with unixClock := e.unixClock.tail }) :=
  ⟨fun e => { Env.Later.refl e with unixClock := .tail _ }⟩

instance : Advances fun e : Env =>
    (e.steadyClock.head, { e with steadyClock := e.steadyClock.tail }) :=
  ⟨fun e => { Env.Later.refl e with steadyClock := .tail _ }⟩

instance : Advances fun e : Env => (e.cancelled.head, { e with cancelled := e.cancelled.tail }) :=
  ⟨fun e => { Env.Later.refl e with cancelled := .tail _ }⟩

instance : Advances fun e : Env =>
    (e.delayPolls.head, { e with delayPolls := e.delayPolls.tail }) :=
  ⟨fun e => { Env.Later.refl e with delayPolls := .tail _ }⟩

instance : Advances fun e : Env => (e.decision.head, { e with decision := e.decision.tail }) :=
  ⟨fun e => { Env.Later.refl e with decision := .tail _ }⟩

instance : Advances fun e : Env => (e.generate.head, { e with generate := e.generate.tail }) :=
  ⟨fun e => { Env.Later.refl e with generate := .tail _ }⟩

instance : Advances fun e : Env => (e.load.head, { e with load := e.load.tail }) :=
  ⟨fun e => { Env.Later.refl e with load := .tail _ }⟩

instance : Advances fun e : Env => (e.sign.head, { e with sign := e.sign.tail }) :=
  ⟨fun e => { Env.Later.refl e with sign := .tail _ }⟩

instance : Advances fun e : Env => (e.wrap.head, { e with wrap := e.wrap.tail }) :=
  ⟨fun e => { Env.Later.refl e with wrap := .tail _ }⟩

instance : Advances fun e : Env => (e.unwrap.head, { e with unwrap := e.unwrap.tail }) :=
  ⟨fun e => { Env.Later.refl e with unwrap := .tail _ }⟩

instance : Advances fun e : Env => (e.reinit.head, { e with reinit := e.reinit.tail }) :=
  ⟨fun e => { Env.Later.refl e with reinit := .tail _ }⟩

instance : Advances fun e : Env => (e.ecdhKey.head, { e with ecdhKey := e.ecdhKey.tail }) :=
  ⟨fun e => { Env.Later.refl e with ecdhKey := .tail _ }⟩

theorem Env.later_ticked (e : Env) : e.Later e.ticked := by
  constructor <;> first | exact IsLater.refl _ | exact fun h => by rw [Env.ticked, h]; rfl

namespace World

/-- The world answered by another environment. -/
def withEnv (w : World) (e : Env) : World := { w with env := e }

@[simp] theorem emits_nil (w : World) : w.emits [] = w := by
  simp [emits]

@[simp] theorem emits_emits (w : World) (l l' : List Event) :
    (w.emits l).emits l' = w.emits (l ++ l') := by
  simp [emits]

end World

section Rules

open Proc

variable {ε ε' α β : Type} {w : World}

/-- The frame of a procedure that only puts requests to the environment. -/
def envOnly : Frame World :=
  Frame.ofRel (fun w w' => ∃ e, w.env.Later e ∧ w' = w.withEnv e)
    (fun w => ⟨w.env, .refl w.env, rfl⟩) <| by
    rintro w _ _ ⟨e, he, rfl⟩ ⟨e', he', rfl⟩
    exact ⟨e', he.trans he', rfl⟩

/-- A procedure is **quiet** when all it does is put requests to the environment. -/
abbrev Quiet (m : Cmd ε α) : Prop := Guarantees envOnly m

/-- A quiet procedure may end in any way, in the same world up to its environment. -/
theorem Quiet.run_of {m : Cmd ε α} (h : Quiet m) {Q : α → World → Prop} {E : ε → World → Prop}
    {C : World → Prop} (hQ : ∀ a e, Q a (w.withEnv e)) (hE : ∀ r e, E r (w.withEnv e))
    (hC : ∀ e, C (w.withEnv e)) : m.Run w Q E C := by
  refine (h.run w).mono ?_ ?_ ?_
  · rintro a _ ⟨e, -, rfl⟩
    exact hQ a e
  · rintro r _ ⟨e, -, rfl⟩
    exact hE r e
  · rintro _ ⟨e, -, rfl⟩
    exact hC e

/-- A frame that does not look at the environment has every quiet procedure. -/
theorem Quiet.guarantees {m : Cmd ε α} (h : Quiet m) {R : Frame World}
    (hR : ∀ w e, R.rel w (w.withEnv e)) : Guarantees R m :=
  h.mono (fun w _ ⟨e, _, he⟩ => he ▸ hR w e) fun w _ ⟨e, _, he⟩ => R.lost_of_rel (he ▸ hR w e)

theorem quiet_tick : Quiet (tick : Cmd ε Unit) := by
  intro w
  unfold Run tick
  rcases hc : w.env.crash with _ | _ | n
  · exact ⟨w.env, .refl w.env, rfl⟩
  · exact ⟨w.env, .refl w.env, rfl⟩
  · refine ⟨{ w.env with crash := some n }, ?_, rfl⟩
    constructor <;> first | exact IsLater.refl _ | exact fun h => by rw [hc] at h; cases h

theorem quiet_ask (f : Env → α × Env) [Advances f] :
    Quiet (ask f : Cmd ε α) :=
  quiet_tick.bind fun _ w => ⟨(f w.env).2, Advances.later w.env, rfl⟩

theorem quiet_random (n : ℕ) : Quiet (random n) :=
  (quiet_ask _).bind fun r => by
    cases r
    · exact Guarantees.throw _
    · exact Guarantees.pure _

theorem tick_apply (h : w.env.crash ≠ some 0) :
    (tick : Cmd ε Unit) w = (.ok (), w.withEnv w.env.ticked) := by
  obtain ⟨_, _, _, _, _, ⟨crash, _⟩, _⟩ := w
  rcases crash with _ | _ | n
  · rfl
  · exact absurd rfl h
  · rfl

theorem tick_died (h : w.env.crash = some 0) : (tick : Cmd ε Unit) w = (.died, w) := by
  unfold tick
  rw [h]

theorem ask_apply (f : Env → α × Env) (h : w.env.crash ≠ some 0) :
    (ask f : Cmd ε α) w = (.ok (f w.env.ticked).1, w.withEnv (f w.env.ticked).2) :=
  bind_apply_ok (tick_apply h)

theorem ask_died (f : Env → α × Env) (h : w.env.crash = some 0) :
    (ask f : Cmd ε α) w = (.died, w) :=
  bind_apply_died (tick_died h)

theorem run_tick {Q : Unit → World → Prop} {E : ε → World → Prop} {C : World → Prop}
    (hQ : ∀ e, Q () (w.withEnv e)) (hC : ∀ e, C (w.withEnv e)) :
    (tick : Cmd ε Unit).Run w Q E C := by
  unfold Run tick
  rcases w.env.crash with _ | _ | n
  · exact hQ w.env
  · exact hC w.env
  · exact hQ _

/-- A request is answered by the environment and leaves the rest of the world alone. -/
theorem run_ask_head {f : Env → α × Env} {Q : α → World → Prop} {E : ε → World → Prop}
    {C : World → Prop} (hQ : ∀ e, Q (f w.env.ticked).1 (w.withEnv e))
    (hC : ∀ e, C (w.withEnv e)) : (ask f : Cmd ε α).Run w Q E C := by
  rcases eq_or_ne w.env.crash (some 0) with h | h
  · rw [Run, ask_died f h]
    exact hC w.env
  · rw [Run, ask_apply f h]
    exact hQ _

/-- The same, with what is known of the answers that are left. -/
theorem run_ask_later {f : Env → α × Env} {Q : α → World → Prop} {E : ε → World → Prop}
    {C : World → Prop} (hQ : ∀ e, w.env.Later e → Q (f w.env.ticked).1 (w.withEnv e))
    (hC : ∀ e, C (w.withEnv e)) [Advances f] :
    (ask f : Cmd ε α).Run w Q E C := by
  rcases eq_or_ne w.env.crash (some 0) with h | h
  · rw [Run, ask_died f h]
    exact hC w.env
  · rw [Run, ask_apply f h]
    exact hQ _ (w.env.later_ticked.trans (Advances.later _))

/-- A request may be answered in any way and leaves the rest of the world alone. -/
theorem run_ask {f : Env → α × Env} {Q : α → World → Prop} {E : ε → World → Prop}
    {C : World → Prop} (hQ : ∀ a e, Q a (w.withEnv e)) (hC : ∀ e, C (w.withEnv e)) :
    (ask f : Cmd ε α).Run w Q E C :=
  run_bind.mpr (run_tick (fun _ => hQ _ _) hC)

theorem run_emit {ev : Event} {Q : Unit → World → Prop} {E : ε → World → Prop} {C : World → Prop} :
    (emit ev : Cmd ε Unit).Run w Q E C ↔ Q () (w.emits [ev]) := Iff.rfl

end Rules

end Swpasskey
