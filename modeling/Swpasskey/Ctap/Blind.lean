import Swpasskey.Ctap.Authenticator
import Swpasskey.Lib.Relational

/-!
# What no row decides

Two runs from states related by `R` go on side by side as long as they get the same answers.
`Blind R` says that `R` survives what every command does apart from its own rows: requests to
the outside, log entries, saves, changes to the PIN and its manager. Whatever is made of
these alone ends in the same way in both runs, with the same value: the whole of clientPIN,
the check of a pinUvAuthParam, the prompts, and the cryptography of an assertion.
-/

namespace Proc

variable {σ ε ε' α β : Type} {R S : σ → σ → Prop} {V : α → α → Prop} {U : β → β → Prop}

/-- A weaker relation between the states. -/
theorem Ends.weaken {x x' : Outcome ε α × σ} (h : Ends R V x x') (hS : ∀ s s', R s s' → S s s') :
    Ends S V x x' := by
  rcases h with ⟨hv, ht⟩ | ht | ht
  · exact .ok hv (hS _ _ ht)
  · exact .err (hS _ _ ht)
  · exact .died (hS _ _ ht)

/-- Sequencing, when what follows is related more weakly. -/
theorem Ends.bind_weaken {m m' : Proc σ ε α} {f f' : α → Proc σ ε β} {s s' : σ}
    (hm : Ends R V (m s) (m' s')) (hS : ∀ s s', R s s' → S s s')
    (hf : ∀ a a' t t', V a a' → R t t' → Ends S U (f a t) (f' a' t')) :
    Ends S U ((m >>= f) s) ((m' >>= f') s') := by
  rw [bind_apply, bind_apply]
  generalize m s = r at hm
  generalize m' s' = r' at hm
  rcases hm with ⟨hv, ht⟩ | ht | ht
  · exact hf _ _ _ _ hv ht
  · exact .err (hS _ _ ht)
  · exact .died (hS _ _ ht)

namespace Sim

theorem attempt_eq {m m' : Proc σ ε α} (h : Sim R Eq m m') : Sim R Eq m.attempt m'.attempt :=
  h.attempt.mono fun x x' hx => by
    rcases hx with ⟨a, _, rfl, rfl, rfl⟩ | ⟨e, rfl, rfl⟩
    · rfl
    · rfl

/-- A pure computation, with what is known of its value. -/
theorem ofExcept_of {x : Except ε α} {P : α → Prop} (h : ∀ a, x = .ok a → P a) :
    Sim R (fun a b => a = b ∧ P a) (Proc.ofExcept x : Proc σ ε α) (Proc.ofExcept x) := by
  rcases x with e | a
  · exact Sim.throw e
  · exact Sim.pure ⟨rfl, h a rfl⟩

theorem loop {f f' : β → Proc σ ε β} (hf : ∀ b, Sim R Eq (f b) (f' b)) :
    ∀ n b, Sim R Eq (Proc.loop f n b) (Proc.loop f' n b)
  | 0, _ => Sim.pure rfl
  | n + 1, b => (hf b).bind_eq fun b' => Sim.loop hf n b'

theorem forEach {f f' : α → Proc σ ε Unit} :
    ∀ {l : List α}, (∀ a ∈ l, Sim R Eq (f a) (f' a)) →
      Sim R Eq (Proc.forEach f l) (Proc.forEach f' l)
  | [], _ => Sim.pure rfl
  | a :: _, h => (h a List.mem_cons_self).bind_eq fun _ =>
    Sim.forEach fun b hb => h b (List.mem_cons_of_mem a hb)

end Sim

end Proc

namespace Swpasskey

open Proc Cbor

variable {D : Device} {R : World → World → Prop}

/-- A relation between states that survives everything but the work on rows. -/
structure Blind (R : World → World → Prop) : Prop where
  env : ∀ {w v : World}, R w v → w.env = v.env
  manager : ∀ {w v : World}, R w v → w.pin = v.pin
  pin : ∀ {w v : World}, R w v → w.store.pin = v.store.pin
  withEnv : ∀ {w v : World}, R w v → ∀ e, w.env.Later e → R (w.withEnv e) (v.withEnv e)
  emits : ∀ {w v : World}, R w v → ∀ l, R (w.emits l) (v.emits l)
  withManager : ∀ {w v : World}, R w v → ∀ p,
    R (PinManager.withManager w p) (PinManager.withManager v p)
  withPin : ∀ {w v : World}, R w v → ∀ p, R (w.withPin p) (v.withPin p)
  saved : ∀ {w v : World}, R w v → R (Store.saved w) (Store.saved v)
  dropNext : ∀ {w v : World}, R w v → R { w with next := none } { v with next := none }

namespace Blind

variable (h : Blind R)

include h

/-! ### Requests to the outside -/

section Requests

variable {ε α : Type}

theorem tick : Sim R Eq (tick : Cmd ε Unit) Swpasskey.tick := by
  intro w v hw
  have henv := h.env hw
  by_cases hc : w.env.crash = some 0
  · rw [tick_died hc, tick_died (henv ▸ hc)]
    exact .died hw
  · rw [tick_apply hc, tick_apply (henv ▸ hc), ← henv]
    exact .ok rfl (h.withEnv hw _ w.env.later_ticked)

/-- A request gets one answer in both runs. -/
theorem ask (f : Env → α × Env) [Advances f] : Sim R Eq (ask f : Cmd ε α) (Swpasskey.ask f) := by
  refine h.tick.bind_eq fun _ w v hw => ?_
  change Ends _ _ (.ok (f w.env).1, w.withEnv (f w.env).2)
    (.ok (f v.env).1, v.withEnv (f v.env).2)
  rw [← h.env hw]
  exact .ok rfl (h.withEnv hw _ (Advances.later w.env))

theorem emit (ev : Event) : Sim R Eq (emit ev : Cmd ε Unit) (Swpasskey.emit ev) :=
  Sim.modify fun _ _ hw => h.emits hw [ev]

theorem random (n : ℕ) : Sim R Eq (random n) (Swpasskey.random n) := by
  refine (h.ask _).bind_eq fun r => ?_
  rcases r with _ | f
  · exact Sim.throw _
  · exact Sim.pure rfl

theorem flush (m : Mutator) : Sim R Eq (Store.flush m) (Store.flush m) :=
  (h.ask _).bind_eq fun _ => (h.emit _).bind_eq fun _ =>
    Sim.ite (Sim.modify fun _ _ hw => h.saved hw) (Sim.throw _)

omit h in
theorem decision (d : Decision) : Sim R Eq d.require d.require := by
  cases d with
  | allow => exact Sim.pure rfl
  | _ => exact Sim.throw _

theorem confirmUp (kind : PresenceKind) (rpId display : Bytes) (rpIdHash : Block 32) :
    Sim R Eq (confirmUp kind rpId display rpIdHash : Cmd ε Decision)
      (Swpasskey.confirmUp kind rpId display rpIdHash) :=
  (h.ask _).bind_eq fun _ => Sim.ite (Sim.pure rfl)
    ((h.ask _).bind_eq fun _ => (h.emit _).bind_eq fun _ => Sim.pure rfl)

end Requests

theorem drop : Sim R Eq Swpasskey.dropNext Swpasskey.dropNext :=
  Sim.modify fun _ _ hw => h.dropNext hw

/-! ### Cryptography -/

section Crypto

variable (P : Provider)

theorem hmacSha256 (key msg : Bytes) :
    Sim R Eq (hmacSha256 P key msg) (Swpasskey.hmacSha256 P key msg) :=
  (h.ask _).bind_eq fun _ => (Sim.require rfl _).bind_eq fun _ => Sim.pure rfl

theorem hkdfSha256 (ikm salt info : Bytes) :
    Sim R Eq (hkdfSha256 P ikm salt info) (Swpasskey.hkdfSha256 P ikm salt info) :=
  (h.ask _).bind_eq fun _ => (Sim.require rfl _).bind_eq fun _ => Sim.pure rfl

theorem deriveSharedSecret (z : Block 32) :
    Sim R Eq (deriveSharedSecret P z) (Swpasskey.deriveSharedSecret P z) := by
  refine (h.hkdfSha256 P _ _ _).attempt_eq.bind_eq fun x => ?_
  refine (h.hkdfSha256 P _ _ _).attempt_eq.bind_eq fun y => ?_
  rcases x with _ | x
  · exact Sim.throw _
  rcases y with _ | y
  · exact Sim.throw _
  · exact Sim.pure rfl

theorem pin2Encrypt (ss : SharedSecret) (pt : Bytes) :
    Sim R Eq (pin2Encrypt P ss pt) (Swpasskey.pin2Encrypt P ss pt) := by
  refine (h.random 16).bind_eq fun iv => Sim.bind_eq ?_ fun _ => Sim.pure rfl
  refine (Sim.require rfl _).bind_eq fun _ => (h.ask _).bind_eq fun _ => ?_
  exact (Sim.require rfl _).bind_eq fun _ => Sim.pure rfl

theorem pin2Decrypt (ss : SharedSecret) (ct : Bytes) :
    Sim R Eq (pin2Decrypt P ss ct) (Swpasskey.pin2Decrypt P ss ct) := by
  refine (Sim.require rfl _).bind_eq fun _ => (Sim.require rfl _).bind_eq fun _ => ?_
  exact (h.ask _).bind_eq fun _ => (Sim.require rfl _).bind_eq fun _ => Sim.pure rfl

theorem hmacSalts (sel : Bytes) :
    ∀ salts, Sim R Eq (hmacSalts D sel salts) (Swpasskey.hmacSalts D sel salts)
  | [] => Sim.pure rfl
  | _ :: salts => (h.hmacSha256 _ _ _).bind_eq fun _ =>
    (hmacSalts sel salts).bind_eq fun _ => Sim.pure rfl

theorem sharedSecretFor (key : P256PublicKey) :
    Sim R Eq (PinManager.sharedSecretFor D key) (PinManager.sharedSecretFor D key) := by
  refine (Sim.gets fun w v hw => congrArg PinManager.ka (h.manager hw)).bind_eq fun ka => ?_
  rcases ka with _ | ka
  · exact Sim.throw _
  dsimp only
  rcases D.provider.sharedSecretX ka key with _ | z
  · exact Sim.throw _
  · exact h.deriveSharedSecret _ z

end Crypto

/-! ### Key backends -/

theorem signDer (key : SigningKey) (message : Bytes) :
    Sim R Eq (signDer key message) (Swpasskey.signDer key message) := by
  refine (h.ask _).bind_eq fun f => ?_
  rcases f key message with _ | sig
  · exact Sim.throw _
  · exact Sim.pure rfl

theorem generateKey (kind : BackendKind) :
    Sim R Eq (generateKey kind) (Swpasskey.generateKey kind) := by
  refine (h.ask _).bind_eq fun m => ?_
  rcases m with _ | m
  · exact Sim.throw _
  · exact (h.emit _).bind_eq fun _ => Sim.pure rfl

theorem wrapSecret (kind : BackendKind) (secret : Bytes) :
    Sim R Eq (wrapSecret kind secret) (Swpasskey.wrapSecret kind secret) := by
  refine Sim.bind_eq (Sim.ite (Sim.pure rfl) ((h.ask _).bind_eq fun f => ?_)) fun _ =>
    (h.emit _).bind_eq fun _ => Sim.pure rfl
  rcases f secret with _ | wrapped
  · exact Sim.throw _
  · exact Sim.pure rfl

theorem unwrapSecret (kind : BackendKind) (wrapped : Bytes) :
    Sim R Eq (unwrapSecret kind wrapped) (Swpasskey.unwrapSecret kind wrapped) := by
  refine Sim.ite (Sim.pure rfl) ((h.ask _).bind_eq fun f => ?_)
  rcases f wrapped with _ | secret
  · exact Sim.throw _
  · exact Sim.pure rfl

theorem loadKey (c : Credential) : Sim R Eq (loadKey D c) (Swpasskey.loadKey D c) := by
  refine Sim.ite ?_ ?_
  · refine (Sim.require rfl _).bind_eq fun _ => (h.ask _).bind_eq fun _ => ?_
    exact (Sim.require rfl _).bind_eq fun _ => Sim.pure rfl
  · refine (Sim.require rfl _).bind_eq fun _ => (h.ask _).bind_eq fun _ => ?_
    exact (Sim.require rfl _).bind_eq fun _ => Sim.pure rfl

theorem destroyKey (c : Credential) : Sim R Eq (destroyKey D c) (Swpasskey.destroyKey D c) :=
  Sim.ite (h.tick.bind_eq fun _ => (h.emit _).bind_eq fun _ => h.tick.bind_eq fun _ => h.emit _)
    (Sim.pure rfl)

/-- Both runs make the same row. -/
theorem createRow (template : Credential) :
    Sim R Eq (createRow D template) (Swpasskey.createRow D template) :=
  (h.generateKey _).bind_eq fun _ => (h.random 32).bind_eq fun _ => (h.emit _).bind_eq fun _ =>
    (h.ask _).bind_eq fun _ => (h.random 64).bind_eq fun _ => (h.wrapSecret _ _).bind_eq fun _ =>
      (h.emit _).bind_eq fun _ => Sim.pure rfl

theorem assertionExtensions (cred : Credential) (flags : UInt8) (ext : ExtensionsIn) :
    Sim R Eq (assertionExtensions D cred flags ext)
      (Swpasskey.assertionExtensions D cred flags ext) := by
  refine Sim.ite (Sim.bind_eq ?_ fun _ => Sim.pure rfl) (Sim.pure rfl)
  unfold hmacSecretOutput
  rcases ext.hmacKeyAgreement with _ | key
  · exact Sim.throw _
  refine (Sim.require rfl _).bind_eq fun _ => (Sim.require rfl _).bind_eq fun _ => ?_
  refine ((h.sharedSecretFor key).orFail _).bind_eq fun ss => ?_
  refine ((h.hmacSha256 _ _ _).orFail _).bind_eq fun mac => (Sim.require rfl _).bind_eq fun _ => ?_
  refine ((h.pin2Decrypt _ _ _).orFail _).bind_eq fun salts => ?_
  refine (Sim.require rfl _).bind_eq fun _ => (Sim.require rfl _).bind_eq fun _ => ?_
  refine (Sim.require rfl _).bind_eq fun _ => ((h.unwrapSecret _ _).orFail _).bind_eq fun cr => ?_
  refine (Sim.require rfl _).bind_eq fun _ => ((h.hmacSalts _ _).orFail _).bind_eq fun out => ?_
  exact (h.pin2Encrypt _ _ _).orFail _

/-! ### The PIN -/

theorem pinSet : Sim R Eq (gets PinManager.pinSet : Cmd Status Bool) (gets PinManager.pinSet) :=
  Sim.gets fun w v hw => by rw [PinManager.pinSet, PinManager.pinSet, h.pin hw]

theorem updatePin (f : PinManager → PinManager) :
    Sim R Eq (PinManager.update f) (PinManager.update f) := by
  intro w v hw
  have hpin := h.withManager hw (f w.pin)
  refine .ok rfl ?_
  change R (PinManager.withManager w (f w.pin)) (PinManager.withManager v (f v.pin))
  rwa [← h.manager hw]

theorem setPin (p : PinState) : Sim R Eq (Store.setPin p) (Store.setPin p) :=
  Sim.bind_eq (Sim.modify fun _ _ hw => h.withPin hw p) fun _ => h.flush _

theorem install (hash : Block 16) :
    Sim R Eq (PinManager.install hash) (PinManager.install hash) :=
  (h.emit _).bind_eq fun _ => (h.setPin _).orFail _

omit h in
theorem hashPin (pin : Bytes) : Sim R Eq (PinManager.hashPin D pin) (PinManager.hashPin D pin) :=
  (Sim.require rfl _).bind_eq fun _ => Sim.pure rfl

theorem setPinLocal (pin : Bytes) :
    Sim R Eq (PinManager.setPinLocal D pin) (PinManager.setPinLocal D pin) :=
  (hashPin pin).bind_eq fun _ => (h.install _).bind_eq fun _ => (h.updatePin _).bind_eq fun _ =>
    h.updatePin _

theorem pinFromPadded (ss : SharedSecret) (newPinEnc : Bytes) :
    Sim R Eq (PinManager.pinFromPadded D ss newPinEnc)
      (PinManager.pinFromPadded D ss newPinEnc) :=
  ((h.pin2Decrypt _ _ _).orFail _).bind_eq fun _ => (Sim.require rfl _).bind_eq fun _ => hashPin _

theorem regenerateKeyAgreement :
    Sim R Eq PinManager.regenerateKeyAgreement PinManager.regenerateKeyAgreement := by
  refine (h.updatePin _).bind_eq fun _ => (h.ask _).bind_eq fun k => ?_
  rcases k with _ | k
  · exact Sim.throw _
  · exact h.updatePin _

theorem awaitDelay : Sim R Eq (PinManager.awaitDelay D) (PinManager.awaitDelay D) := by
  refine (Sim.gets fun _ _ hw => h.manager hw).bind_eq fun p => Sim.ite (Sim.pure rfl) ?_
  exact (h.ask _).bind_eq fun polls => Sim.loop (fun _ =>
    (h.ask _).bind_eq fun _ => Sim.require rfl _) polls ()

theorem checkPinHash (ss : SharedSecret) (enc : Bytes) :
    Sim R Eq (PinManager.checkPinHash D ss enc) (PinManager.checkPinHash D ss enc) := by
  refine (Sim.gets fun _ _ hw => h.pin hw).bind_eq fun pin => ?_
  dsimp only
  rcases pin.hash with _ | hash
  · exact Sim.throw _
  refine (Sim.require rfl _).bind_eq fun _ => h.awaitDelay.bind_eq fun _ => ?_
  refine ((h.pin2Decrypt _ _ _).orFail _).bind_eq fun got => (Sim.require rfl _).bind_eq fun _ => ?_
  refine ((h.setPin _).orFail _).bind_eq fun _ => Sim.bind_eq ?_ fun equal => ?_
  · exact (h.emit _).bind_eq fun _ => Sim.pure rfl
  · refine Sim.ite ((h.updatePin _).bind_eq fun _ => Sim.ite ?_ (Sim.pure rfl)) ?_
    · exact (h.setPin _).attempt_eq.bind_eq fun _ => Sim.pure rfl
    · exact (h.updatePin _).bind_eq fun _ => h.regenerateKeyAgreement.attempt_eq.bind_eq fun _ =>
        Sim.ite (Sim.throw _) (Sim.throw _)

theorem getToken (key : P256PublicKey) (enc : Bytes) (perms : UInt8) (rpId : Option Bytes) :
    Sim R Eq (PinManager.getToken D key enc perms rpId)
      (PinManager.getToken D key enc perms rpId) := by
  refine (h.sharedSecretFor key).bind_eq fun ss => (h.checkPinHash ss enc).bind_eq fun _ => ?_
  refine (h.random 32).bind_eq fun bytes => Sim.bind_eq ?_ fun _ => ?_
  · exact (h.ask _).bind_eq fun _ => (h.updatePin _).bind_eq fun _ => h.emit _
  · refine (h.pin2Encrypt _ _ _).attempt_eq.bind_eq fun r => ?_
    rcases r with _ | enc
    · exact (h.updatePin _).bind_eq fun _ => Sim.throw _
    · exact Sim.pure rfl

theorem setPinCtap (key : P256PublicKey) (newPinEnc auth : Bytes) :
    Sim R Eq (PinManager.setPin D key newPinEnc auth) (PinManager.setPin D key newPinEnc auth) := by
  refine Sim.bind_eq ?_ fun _ => (h.install _).bind_eq fun _ => (h.updatePin _).bind_eq fun _ =>
    Sim.pure rfl
  refine h.pinSet.bind_eq fun _ => (Sim.require rfl _).bind_eq fun _ => ?_
  refine (h.sharedSecretFor key).bind_eq fun ss => ((h.hmacSha256 _ _ _).orFail _).bind_eq
    fun mac => ?_
  exact (Sim.require rfl _).bind_eq fun _ => h.pinFromPadded _ _

theorem changePin (key : P256PublicKey) (enc newPinEnc auth : Bytes) :
    Sim R Eq (PinManager.changePin D key enc newPinEnc auth)
      (PinManager.changePin D key enc newPinEnc auth) := by
  refine Sim.bind_eq ?_ fun ss => (h.pinFromPadded _ _).bind_eq fun _ =>
    (h.install _).bind_eq fun _ => (h.updatePin _).bind_eq fun _ => Sim.pure rfl
  refine (h.sharedSecretFor key).bind_eq fun ss => ((h.hmacSha256 _ _ _).orFail _).bind_eq
    fun mac => ?_
  exact (Sim.require rfl _).bind_eq fun _ => (h.checkPinHash ss enc).bind_eq fun _ => Sim.pure rfl

/-- The whole of clientPIN. -/
theorem handle (body : Bytes) : Sim R Eq (PinManager.handle D body) (PinManager.handle D body) := by
  refine (Sim.ofExcept _).bind_eq fun q => PinManager.dispatch_induction
    (P := fun m => Sim R Eq m m) (fun _ => Sim.throw _)
    (Sim.gets fun w v hw => by rw [h.pin hw]) ?_ h.setPinCtap h.changePin
    (fun key enc => h.getToken key enc _ _) (fun key enc perms rpId => ?_) q
  · refine (Sim.gets fun w v hw => congrArg PinManager.ka (h.manager hw)).bind_eq fun ka => ?_
    rcases ka with _ | ka
    · exact Sim.throw _
    · exact Sim.pure rfl
  · exact (Sim.require rfl _).bind_eq fun _ => (Sim.require rfl _).bind_eq fun _ =>
      (Sim.require rfl _).bind_eq fun _ => h.getToken _ _ _ _

theorem verify (param : Bytes) (protocol : UInt64) (clientDataHash : Block 32)
    (permission : UInt8) (rpId : Bytes) :
    Sim R Eq (PinManager.verify D param protocol clientDataHash permission rpId)
      (PinManager.verify D param protocol clientDataHash permission rpId) := by
  refine (Sim.require rfl _).bind_eq fun _ => ?_
  refine (Sim.gets fun w v hw => congrArg PinManager.token (h.manager hw)).bind_eq fun t => ?_
  rcases t with _ | t
  · exact Sim.throw _
  refine (h.ask _).bind_eq fun now => Sim.ite ?_ ?_
  · exact (h.updatePin _).bind_eq fun _ => Sim.throw _
  refine ((h.hmacSha256 _ _ _).orFail _).bind_eq fun mac => ?_
  refine (Sim.require rfl _).bind_eq fun _ => (Sim.require rfl _).bind_eq fun _ => ?_
  refine (Sim.require rfl _).bind_eq fun _ => (h.ask _).bind_eq fun touched => ?_
  exact (h.updatePin _).bind_eq fun _ => (h.emit _).bind_eq fun _ => Sim.pure rfl

theorem checkPinAuth (param : Option Bytes) (protocol : Option UInt64) (clientDataHash : Block 32)
    (permission : UInt8) (rpId : Bytes) (rpIdHash : Block 32) (isMake : Bool) :
    Sim R Eq (checkPinAuth D param protocol clientDataHash permission rpId rpIdHash isMake)
      (Swpasskey.checkPinAuth D param protocol clientDataHash permission rpId rpIdHash isMake) := by
  rcases param with _ | param
  · exact h.pinSet.bind_eq fun _ => (Sim.require rfl _).bind_eq fun _ => Sim.pure rfl
  rcases protocol with _ | protocol
  · exact Sim.throw _
  refine (Sim.require rfl _).bind_eq fun _ => Sim.ite ?_ (h.verify _ _ _ _ _)
  refine (h.confirmUp _ _ _ _).bind_eq fun d => ?_
  cases d with
  | allow => exact h.pinSet.bind_eq fun _ => Sim.throw _
  | _ => exact Sim.throw _

theorem confirmLocal (kind : PresenceKind) :
    Sim R Eq (confirmLocal kind) (Swpasskey.confirmLocal kind) :=
  (h.confirmUp _ _ _ _).bind_eq fun d => decision d

theorem confirmAssertion (q : GetAssertionRequest) (rpIdHash : Block 32) (first : Credential) :
    Sim R Eq (confirmAssertion q rpIdHash first)
      (Swpasskey.confirmAssertion q rpIdHash first) :=
  Sim.ite ((h.confirmUp _ _ _ _).bind_eq fun d => decision d) (Sim.pure rfl)

/-- What follows a command. -/
theorem finish {ε α : Type} {m m' : Cmd ε α} (hm : Sim R Eq m m') (f : α → Answer)
    (r : ε → Refusal) : Sim R Eq (finish m f r) (Swpasskey.finish m' f r) :=
  (hm.bind_eq fun _ => h.tick.bind_eq fun _ => Sim.pure rfl).mapErr r

end Blind

end Swpasskey
