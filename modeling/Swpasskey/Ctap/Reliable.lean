import Swpasskey.Ctap.Enumeration
import Swpasskey.Ctap.PinClient

/-!
# When nothing fails

In an environment in which nothing fails, the quiet parts of a PIN command are functions:
each returns one value, and takes neither random bytes nor the time (`Computes`). What a
command does to the PIN can then be said exactly.
-/

namespace Swpasskey

open Proc Store

variable {D : Device} {keys : Set EcdhKey} {w : World}

/-- Nothing fails, nothing is cancelled, and the key-agreement keys are among `keys`. -/
structure Env.Reliable (keys : Set EcdhKey) (e : Env) : Prop where
  crash : e.crash = none
  save : ∀ i, e.save.get i = true
  crypto : ∀ i, e.crypto.get i = true
  cancelled : ∀ i, e.cancelled.get i = false
  random : ∀ i, (e.random.get i).isSome
  ecdhKey : ∀ i, ∃ k ∈ keys, e.ecdhKey.get i = some k

theorem Env.Reliable.later {e e' : Env} (h : e.Reliable keys) (he : e.Later e') :
    e'.Reliable keys where
  crash := he.crash h.crash
  save := he.save.forall_get (P := fun b => b = true) h.save
  crypto := he.crypto.forall_get (P := fun b => b = true) h.crypto
  cancelled := he.cancelled.forall_get (P := fun b => b = false) h.cancelled
  random := he.random.forall_get (P := fun r => r.isSome) h.random
  ecdhKey := he.ecdhKey.forall_get (P := fun r => ∃ k ∈ keys, r = some k) h.ecdhKey

/-- Some answers are taken, but no random bytes and no time. -/
structure Env.Spent (e e' : Env) : Prop where
  later : e.Later e'
  random : e'.random = e.random
  steadyClock : e'.steadyClock = e.steadyClock

theorem Env.Spent.refl (e : Env) : e.Spent e := ⟨.refl e, rfl, rfl⟩

theorem Env.Spent.trans {e e' e'' : Env} (h : e.Spent e') (h' : e'.Spent e'') : e.Spent e'' :=
  ⟨h.later.trans h'.later, h'.random.trans h.random, h'.steadyClock.trans h.steadyClock⟩

/-- A request to a process that lives is answered with the next answer. -/
theorem ask_apply_alive {ε α : Type} (f : Env → α × Env) (h : w.env.crash = none) :
    (ask f : Cmd ε α) w = (.ok (f w.env).1, w.withEnv (f w.env).2) := by
  rw [ask_apply f (by rw [h]; simp), Env.ticked_of_alive h]

/-- The procedure returns this value, and takes neither random bytes nor the time. -/
def Computes {ε α : Type} (m : Cmd ε α) (w : World) (a : α) : Prop :=
  ∃ e, w.env.Spent e ∧ m w = (.ok a, w.withEnv e)

namespace Computes

variable {ε ε' α β : Type} {m : Cmd ε α} {f : α → Cmd ε β} {a : α} {b : β}

theorem pure (a : α) : Computes (pure a : Cmd ε α) w a := ⟨w.env, .refl _, rfl⟩

theorem require {c : Bool} (h : c = true) (r : ε) : Computes (require c r) w () := by
  subst h
  exact ⟨w.env, .refl _, rfl⟩

theorem bind (h : Computes m w a)
    (hf : ∀ e, w.env.Spent e → Computes (f a) (w.withEnv e) b) : Computes (m >>= f) w b := by
  obtain ⟨e, he, hm⟩ := h
  obtain ⟨e', he', hf⟩ := hf e he
  exact ⟨e', he.trans he', (bind_apply_ok hm).trans hf⟩

theorem attempt (h : Computes m w a) : Computes m.attempt w (.ok a) := by
  obtain ⟨e, he, hm⟩ := h
  exact ⟨e, he, by rw [Proc.attempt, hm]⟩

theorem orFail (h : Computes m w a) (r : ε') : Computes (m.orFail r) w a := by
  obtain ⟨e, he, hm⟩ := h
  exact ⟨e, he, by rw [Proc.orFail, mapErr, hm]⟩

/-- What comes after goes on from the value. -/
theorem run {Q : β → World → Prop} {E : ε → World → Prop} {C : World → Prop} (h : Computes m w a)
    (hf : ∀ e, w.env.Spent e → (f a).Run (w.withEnv e) Q E C) : (m >>= f).Run w Q E C := by
  obtain ⟨e, he, hm⟩ := h
  rw [Run, bind_apply_ok hm]
  exact hf e he

theorem loop {f : Unit → Cmd ε Unit} {I : World → Prop} (hf : ∀ w, I w → Computes (f ()) w ())
    (hI : ∀ w e, I w → w.env.Spent e → I (w.withEnv e)) (n : ℕ) (h : I w) :
    Computes (Proc.loop f n ()) w () := by
  induction n generalizing w with
  | zero => exact .pure ()
  | succ n ih => exact (hf w h).bind fun e he => ih (hI w e h he)

end Computes

/-! ### The provider -/

section Provider

variable {P : Provider}

theorem computes_ask {ε α : Type} {f : Env → α × Env} {a : α} [Advances f]
    (h : w.env.crash = none) (ha : (f w.env).1 = a) (hrandom : (f w.env).2.random = w.env.random)
    (hclock : (f w.env).2.steadyClock = w.env.steadyClock) : Computes (ask f : Cmd ε α) w a :=
  ⟨_, ⟨Advances.later w.env, hrandom, hclock⟩, ha ▸ ask_apply_alive f h⟩

theorem computes_askCrypto (h : w.env.Reliable keys) {ε : Type} :
    Computes (askCrypto : Cmd ε Bool) w true :=
  computes_ask h.crash (h.crypto 0) rfl rfl

theorem computes_isCancelled (h : w.env.Reliable keys) {ε : Type} :
    Computes (isCancelled : Cmd ε Bool) w false :=
  computes_ask h.crash (h.cancelled 0) rfl rfl

theorem computes_hmacSha256 (h : w.env.Reliable keys) (key msg : Bytes) :
    Computes (hmacSha256 P key msg) w (P.hmacSha256 key msg) :=
  (computes_askCrypto h).bind fun _ _ => (Computes.require rfl _).bind fun _ _ => .pure _

theorem computes_hkdfSha256 (h : w.env.Reliable keys) (ikm salt info : Bytes) :
    Computes (hkdfSha256 P ikm salt info) w (P.hkdfSha256 ikm salt info) :=
  (computes_askCrypto h).bind fun _ _ => (Computes.require rfl _).bind fun _ _ => .pure _

theorem computes_deriveSharedSecret (h : w.env.Reliable keys) (z : Block 32) :
    Computes (deriveSharedSecret P z) w (P.derived z) :=
  (computes_hkdfSha256 h _ _ _).attempt.bind fun _ he =>
    (computes_hkdfSha256 (h.later he.later) _ _ _).attempt.bind fun _ _ => .pure _

theorem computes_pin2Decrypt (h : w.env.Reliable keys) (ss : SharedSecret) {ct : Bytes}
    (hlen : 32 ≤ ct.length) (hmod : ct.length % 16 = 0) :
    Computes (pin2Decrypt P ss ct) w (ss.decrypt P ct) := by
  have hrest : (ct.drop 16).length % 16 = 0 := by
    rw [List.length_drop]
    omega
  refine (Computes.require (by simp [hlen, hmod]) _).bind fun _ he => ?_
  refine (Computes.require (decide_eq_true hrest) _).bind fun _ he' => ?_
  refine (computes_askCrypto (h.later (he.trans he').later)).bind fun _ _ => ?_
  exact (Computes.require rfl _).bind fun _ _ => .pure _

end Provider

/-! ### Random bytes and the time -/

/-- The bytes the generator gives next. -/
def Env.fresh (e : Env) (n : ℕ) : Block n :=
  e.random.head.elim (Block.replicate n 0) fun f => f n

theorem run_random (h : w.env.Reliable keys) {n : ℕ} {Q : Block n → World → Prop}
    {E : Status → World → Prop} {C : World → Prop}
    (hQ : ∀ e, e.Reliable keys → e.steadyClock = w.env.steadyClock →
      Q (w.env.fresh n) (w.withEnv e)) : (random n).Run w Q E C := by
  obtain ⟨f, hf⟩ := Option.isSome_iff_exists.mp (h.random 0)
  have hhead : w.env.random.head = some f := hf
  have hlater := Advances.later (f := fun e : Env => (e.random.head, { e with
    random := e.random.tail })) w.env
  have hfresh : w.env.fresh n = f n := by rw [Env.fresh, hhead]; rfl
  have hgoal := hQ _ (h.later hlater) rfl
  rw [hfresh] at hgoal
  rw [random, Run, bind_apply_ok (ask_apply_alive _ h.crash), hhead]
  exact hgoal

theorem run_steadyNow (h : w.env.Reliable keys) {ε : Type} {Q : ℕ → World → Prop}
    {E : ε → World → Prop} {C : World → Prop}
    (hQ : ∀ e, e.Reliable keys → e.steadyClock = w.env.steadyClock.tail →
      Q w.env.steadyClock.head (w.withEnv e)) : (steadyNow : Cmd ε ℕ).Run w Q E C := by
  have hlater := Advances.later (f := fun e : Env => (e.steadyClock.head, { e with
    steadyClock := e.steadyClock.tail })) w.env
  rw [steadyNow, Run, ask_apply_alive _ h.crash]
  exact hQ _ (h.later hlater) rfl

theorem run_pin2Encrypt {P : Provider} (h : w.env.Reliable keys) (ss : SharedSecret) {pt : Bytes}
    (hpt : pt.length % 16 = 0) {Q : Bytes → World → Prop} {E : Status → World → Prop}
    {C : World → Prop} (hQ : ∀ iv e, e.Reliable keys → Q (ss.encrypt P iv pt) (w.withEnv e)) :
    (pin2Encrypt P ss pt).Run w Q E C := by
  refine run_bind.mpr (run_random h fun e he _ => ?_)
  have haes : Computes (aes256cbcEncrypt P ss.aesKey (w.env.fresh 16) pt) (w.withEnv e)
      (P.aes256cbcEncrypt ss.aesKey (w.env.fresh 16) pt) := by
    refine (Computes.require (decide_eq_true hpt) _).bind fun e' he' => ?_
    refine (computes_askCrypto (w := w.withEnv e') (he.later he'.later)).bind fun _ _ => ?_
    exact (Computes.require rfl _).bind fun _ _ => .pure _
  exact haes.run fun e' he' => hQ _ e' (he.later he'.later)

/-! ### The parts of the PIN commands -/

section PinManager

open PinManager

theorem computes_sharedSecretFor (h : w.env.Reliable keys) {ka : EcdhKey} {key : P256PublicKey}
    {z : Block 32} (hka : w.pin.ka = some ka) (hz : D.provider.sharedSecretX ka key = some z) :
    Computes (sharedSecretFor D key) w (D.provider.derived z) := by
  have hgets : Computes (gets fun w : World => w.pin.ka : Cmd Status _) w (some ka) :=
    ⟨w.env, .refl _, by rw [← hka]; rfl⟩
  refine hgets.bind fun e he => ?_
  dsimp only
  rw [hz]
  exact computes_deriveSharedSecret (h.later he.later) z

theorem computes_awaitDelay (h : w.env.Reliable keys) : Computes (awaitDelay D) w () := by
  have hgets : Computes (gets World.pin : Cmd Status _) w w.pin := ⟨w.env, .refl _, rfl⟩
  refine hgets.bind fun e he => ?_
  split_ifs
  · exact .pure ()
  refine (computes_ask (w := w.withEnv e) (h.later he.later).crash rfl rfl rfl).bind
    fun e' he' => ?_
  refine Computes.loop (I := fun w => w.env.Reliable keys) (fun w h => ?_)
    (fun w e h he => h.later he.later) _ (h.later (he.trans he').later)
  exact (computes_isCancelled h).bind fun _ _ => Computes.require rfl _

/-- A key-agreement key is made. -/
theorem run_askEcdhKey (h : w.env.Reliable keys) {ε : Type} {Q : Option EcdhKey → World → Prop}
    {E : ε → World → Prop} {C : World → Prop}
    (hQ : ∀ k ∈ keys, ∀ e, e.Reliable keys → Q (some k) (w.withEnv e)) :
    (askEcdhKey : Cmd ε (Option EcdhKey)).Run w Q E C := by
  obtain ⟨k, hk, hhead⟩ := h.ecdhKey 0
  have hlater := Advances.later (f := fun e : Env => (e.ecdhKey.head, { e with
    ecdhKey := e.ecdhKey.tail })) w.env
  rw [askEcdhKey, Run, ask_apply_alive _ h.crash]
  dsimp only
  rw [show w.env.ecdhKey.head = some k from hhead]
  exact hQ k hk _ (h.later hlater)

/-- A PIN state reaches the file. -/
theorem run_setPin_reliable {K : Set EcdhKey} (h : w.env.Reliable K) {p : PinState}
    {Q : Unit → World → Prop} {E : Status → World → Prop} {C : World → Prop}
    (hQ : ∀ e, w.env.Spent e → Q () ((w.withPin p).flushed .setPin e true)) :
    (setPin p).Run w Q E C := by
  have hask : Computes (askSave : Cmd Status Bool) (w.withPin p) true :=
    computes_ask h.crash (h.save 0) rfl rfl
  exact run_bind.mpr (run_update.mpr (hask.run hQ))

end PinManager

end Swpasskey
