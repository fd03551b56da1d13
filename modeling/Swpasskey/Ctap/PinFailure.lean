import Swpasskey.Ctap.Frames

/-!
# Failed PIN operations

A PIN operation that reports an error should have changed nothing. `CredentialStore::set_pin`
and `factory_reset` change memory before the flush, and the token is dropped only after the
store call has succeeded, so this holds exactly as long as the persister does its part
(`failsCleanly_iff`): a new PIN whose save fails is in force all the same, and a reset that
fails after the wipe leaves the token of the wiped PIN alive.
-/

namespace Swpasskey

open Proc PinManager

/-- The PIN hash on disk. -/
def fileHash (w : World) : Option (Option (Block 16)) := w.file.map fun s => s.pin.hash

/-- If `m` fails, the same PINs are accepted as before, now and after a restart. -/
def KeepsPin {α : Type} (m : Cmd Status α) (w : World) : Prop :=
  ∀ r w', m w = (.err r, w') → w'.store.pin.hash = w.store.pin.hash ∧ fileHash w' = fileHash w

/-- If `m` fails, it has not changed the PIN in force and left a token issued before
alive. -/
def NoStaleToken {α : Type} (m : Cmd Status α) (w : World) : Prop :=
  ∀ r w', m w = (.err r, w') →
    ¬ (w'.store.pin.hash ≠ w.store.pin.hash ∧ ∃ t, w.pin.token = some t ∧ w'.pin.token = some t)

/-- The save of a new PIN hash goes well, or does not matter: the process dies before it, or
the hash is the one that is stored. -/
def SavesPin (w : World) (hash : Block 16) : Prop :=
  w.env.crash = some 0 ∨ w.env.save.head = true ∨ w.store.pin.hash = some hash

/-- The operations that set the PIN in force. -/
inductive PinCall
  | setPin (platformKey : P256PublicKey) (newPinEnc pinAuth : Bytes)
  | changePin (platformKey : P256PublicKey) (pinHashEnc newPinEnc pinAuth : Bytes)
  | ctlSetPin (pin : Bytes)
  | reset

namespace PinCall

variable (D : Device)

/-- The operation, if it fails, fails without an effect on the PIN; for changePIN, from its
old-PIN check on. -/
def FailsCleanly (w : World) : PinCall → Prop
  | setPin key enc auth =>
    KeepsPin (PinManager.setPin D key enc auth) w ∧
      NoStaleToken (PinManager.setPin D key enc auth) w
  | changePin key pinHashEnc enc auth =>
    (∀ ss w₁, changePinCheck D key pinHashEnc enc auth w = (.ok ss, w₁) →
      KeepsPin (changePinTo D ss enc) w₁) ∧
    NoStaleToken (PinManager.changePin D key pinHashEnc enc auth) w
  | ctlSetPin pin =>
    KeepsPin (Swpasskey.ctlSetPin D pin) w ∧ NoStaleToken (Swpasskey.ctlSetPin D pin) w
  | reset => NoStaleToken (cmdReset D) w

end PinCall

/-- `cmd_reset` up to the wipe: the prompt, and the destruction of every key. -/
def resetChecks (D : Device) : Cmd Status Unit := do
  confirmLocal .reset
  dropNext
  let s ← gets World.store
  forEach (destroyKey D) s.creds

/-- The persister resets and saves, or the process dies before it is known. -/
def ResetSaves (w : World) : Prop :=
  w.env.crash = some 0 ∨
    w.env.reset.head.1 = true ∧ (w.env.crash = some 1 ∨ w.env.save.head = true)

namespace PinCall

variable (D : Device)

/-- When the operation fails cleanly. A new PIN that passes all checks must be saved, unless
it is the PIN that is stored. A reset that is approved must get through the persister,
unless there is no PIN or no token. -/
def HoldsWhen (w : World) : PinCall → Prop
  | setPin key enc auth =>
    ∀ hash w₁, setPinChecks D key enc auth w = (.ok hash, w₁) → SavesPin w₁ hash
  | changePin key pinHashEnc enc auth =>
    ∀ ss w₁, changePinCheck D key pinHashEnc enc auth w = (.ok ss, w₁) →
      ∀ hash w₂, pinFromPadded D ss enc w₁ = (.ok hash, w₂) → SavesPin w₂ hash
  | ctlSetPin pin =>
    ∀ hash w₁, (confirmLocal .setPin >>= fun _ => hashPin D pin) w = (.ok hash, w₁) →
      SavesPin w₁ hash
  | reset =>
    w.store.pin.hash = none ∨ w.pin.token = none ∨
      ∀ w₁, resetChecks D w = (.ok (), w₁) → ResetSaves w₁

end PinCall

/-! ### Installing a PIN -/

section Install

variable {α : Type} {w : World}

/-- The world in which a new PIN is in memory and about to be saved. -/
def installing (w : World) (hash : Block 16) : World :=
  (w.emits [.pinInstalled hash]).withPin ⟨some hash, kMaxRetries⟩

theorem install_apply (hash : Block 16) (h : w.env.crash ≠ some 0) :
    install hash w = (if w.env.save.head then .ok () else .err .other,
      (installing w hash).flushed .setPin w.env.afterSave w.env.save.head) := by
  have hf : Store.flush .setPin (installing w hash) =
      (if w.env.save.head then .ok () else .err .other,
        (installing w hash).flushed .setPin w.env.afterSave w.env.save.head) :=
    Store.flush_apply .setPin (w := installing w hash) h
  have hinst : install hash w = ((Store.flush .setPin).orFail .other) (installing w hash) := rfl
  rw [hinst, orFail, mapErr, hf]
  rcases w.env.save.head with _ | _ <;> rfl

theorem install_died (hash : Block 16) (h : w.env.crash = some 0) :
    install hash w = (.died, installing w hash) := by
  have hf := Store.flush_died .setPin (w := installing w hash) h
  have hinst : install hash w = ((Store.flush .setPin).orFail .other) (installing w hash) := rfl
  rw [hinst, orFail, mapErr, hf]

variable {checks : Cmd Status (Block 16)} {after : Block 16 → Cmd Status α}

/-- **An operation that installs a PIN.** If its checks leave the PIN and the file alone and
nothing fails once the PIN is installed, the operation fails cleanly iff the save of the
hash its checks produce goes well or does not matter. -/
theorem keepsPin_iff (hchecks : ∀ o w₁, checks w = (o, w₁) →
      w₁.store.pin.hash = w.store.pin.hash ∧ w₁.file = w.file)
    (hafter : ∀ hash w₁ r w₂, after hash w₁ ≠ (.err r, w₂)) :
    KeepsPin (checks >>= fun hash => install hash >>= fun _ => after hash) w ↔
      ∀ hash w₁, checks w = (.ok hash, w₁) → SavesPin w₁ hash := by
  constructor
  · intro h hash w₁ hw₁
    by_contra hbad
    simp only [SavesPin, not_or, Bool.not_eq_true] at hbad
    have he := install_apply hash hbad.1
    rw [hbad.2.1] at he
    have hkeep := h .other _ ((bind_apply_ok hw₁).trans (bind_apply_err he))
    exact hbad.2.2 ((hchecks _ _ hw₁).1.trans hkeep.1.symm)
  · intro h r w' hw'
    rcases bind_apply_eq_err hw' with hc | ⟨hash, w₁, hc, hrest⟩
    · obtain ⟨hpin, hfile⟩ := hchecks _ _ hc
      exact ⟨hpin, by rw [fileHash, hfile, fileHash]⟩
    rcases bind_apply_eq_err hrest with hi | ⟨_, w₂, _, hafter'⟩
    · obtain ⟨hpin, hfile⟩ := hchecks _ _ hc
      rcases eq_or_ne w₁.env.crash (some 0) with hcrash | hcrash
      · rw [install_died hash hcrash] at hi
        cases hi
      rw [install_apply hash hcrash] at hi
      rcases hs : w₁.env.save.head with _ | _
      · -- the save failed, so the hash is the stored one
        rw [hs] at hi
        obtain rfl : (installing w₁ hash).flushed .setPin w₁.env.afterSave false = w' :=
          congrArg Prod.snd hi
        have hsame : w₁.store.pin.hash = some hash := by
          rcases h hash w₁ hc with hd | ht | hsame
          · exact absurd hd hcrash
          · rw [hs] at ht
            cases ht
          · exact hsame
        exact ⟨hsame.symm.trans hpin,
          (by rw [fileHash, hfile, fileHash] : fileHash w₁ = fileHash w)⟩
      · rw [hs] at hi
        cases congrArg Prod.fst hi
    · exact absurd hafter' (hafter _ _ _ _)

/-- Where the PIN is kept, no token outlives it. -/
theorem KeepsPin.noStaleToken {m : Cmd Status α} (h : KeepsPin m w) : NoStaleToken m w :=
  fun r w' hw' hbad => hbad.1 (h r w' hw').1

end Install

/-! ### The three ways to set a PIN -/

section SetPin

variable {D : Device} {w : World}

/-- A quiet check leaves the PIN and the file alone. -/
theorem Quiet.keeps {ε α : Type} {m : Cmd ε α} (h : Quiet m) {o : Outcome ε α} {w₁ : World}
    (hm : m w = (o, w₁)) : w₁.store.pin.hash = w.store.pin.hash ∧ w₁.file = w.file := by
  obtain ⟨e, -, rfl⟩ := h.apply hm
  exact ⟨rfl, rfl⟩

theorem setPin_failsCleanly_iff (key : P256PublicKey) (enc auth : Bytes) :
    (PinCall.setPin key enc auth).FailsCleanly D w ↔
      (PinCall.setPin key enc auth).HoldsWhen D w := by
  have hiff : KeepsPin (PinManager.setPin D key enc auth) w ↔
      (PinCall.setPin key enc auth).HoldsWhen D w :=
    keepsPin_iff (fun _ _ h => (quiet_setPinChecks key enc auth).keeps h)
      fun _ _ _ _ h => by cases h
  exact ⟨fun h => hiff.mp h.1, fun h => ⟨hiff.mpr h, (hiff.mpr h).noStaleToken⟩⟩

theorem changePinTo_keepsPin_iff (ss : SharedSecret) (enc : Bytes) :
    KeepsPin (changePinTo D ss enc) w ↔
      ∀ hash w₂, pinFromPadded D ss enc w = (.ok hash, w₂) → SavesPin w₂ hash :=
  keepsPin_iff (fun _ _ h => (quiet_pinFromPadded ss enc).keeps h) fun _ _ _ _ h => by cases h

/-- The old-PIN check does not touch the hash in force. -/
theorem checkPinHash_keeps_hash (ss : SharedSecret) (enc : Bytes) :
    Guarantees (Frame.keeps fun w => w.store.pin.hash) (checkPinHash D ss enc) :=
  Guarantees.of_run fun w => run_checkPinHash (fun _ _ => rfl) (fun _ => rfl)
    (fun _ _ hh _ => ⟨hh.symm, hh.symm⟩) (fun _ _ _ _ _ hh _ _ => ⟨hh.symm, hh.symm⟩)
    fun _ _ hh _ => ⟨hh.symm, fun _ => ⟨fun ok => by cases ok <;> exact hh.symm, hh.symm⟩⟩

theorem changePinCheck_keeps_hash (key : P256PublicKey) (pinHashEnc enc auth : Bytes) :
    Guarantees (Frame.keeps fun w => w.store.pin.hash)
        (changePinCheck D key pinHashEnc enc auth) := by
  have henv : ∀ (w : World) e, (Frame.keeps fun w : World => w.store.pin.hash).rel w
    (w.withEnv e) :=
    fun _ _ => rfl
  refine ((quiet_sharedSecretFor key).guarantees henv).bind fun ss => ?_
  refine (((quiet_hmacSha256 _ _).guarantees henv).orFail _).bind fun _ => ?_
  exact (Guarantees.require _ _).bind fun _ =>
    (checkPinHash_keeps_hash ss pinHashEnc).bind fun _ => Guarantees.pure _

theorem changePin_failsCleanly_iff (key : P256PublicKey) (pinHashEnc enc auth : Bytes) :
    (PinCall.changePin key pinHashEnc enc auth).FailsCleanly D w ↔
      (PinCall.changePin key pinHashEnc enc auth).HoldsWhen D w := by
  constructor
  · intro h ss w₁ hw₁
    exact (changePinTo_keepsPin_iff ss enc).mp (h.1 ss w₁ hw₁)
  · intro h
    have hkeep : ∀ ss w₁, changePinCheck D key pinHashEnc enc auth w = (.ok ss, w₁) →
        KeepsPin (changePinTo D ss enc) w₁ :=
      fun ss w₁ hw₁ => (changePinTo_keepsPin_iff ss enc).mpr (h ss w₁ hw₁)
    refine ⟨hkeep, fun r w' hw' hbad => hbad.1 ?_⟩
    rcases bind_apply_eq_err hw' with hc | ⟨ss, w₁, hc, hto⟩
    · exact (changePinCheck_keeps_hash _ _ _ _).apply hc
    · exact (hkeep ss w₁ hc r w' hto).1.trans ((changePinCheck_keeps_hash _ _ _ _).apply hc)

theorem confirmLocal_keeps (kind : PresenceKind) :
    Guarantees (Frame.keeps fun w => (w.store, w.file, w.pin)) (confirmLocal kind) :=
  Guarantees.of_run fun _ => run_bind.mpr (run_confirmUp
    (fun _ => run_decision (fun _ => rfl) fun _ _ => rfl)
    (fun _ _ => run_decision (fun _ => rfl) fun _ _ => rfl) fun _ => rfl)

theorem ctlSetPin_failsCleanly_iff (pin : Bytes) :
    (PinCall.ctlSetPin pin).FailsCleanly D w ↔ (PinCall.ctlSetPin pin).HoldsWhen D w := by
  have hchecks : Guarantees (Frame.keeps fun w => (w.store, w.file, w.pin))
      (confirmLocal .setPin >>= fun _ => hashPin D pin) :=
    (confirmLocal_keeps _).bind fun _ => (quiet_hashPin pin).guarantees fun _ _ => rfl
  -- the checks change neither the PIN nor the file; the install is what can fail
  have hsplit : Swpasskey.ctlSetPin D pin = (confirmLocal .setPin >>= fun _ => hashPin D pin) >>=
      fun hash => install hash >>= fun _ =>
        PinManager.update (fun p => { p with consecutiveFailures := 0 }) >>= fun _ =>
          invalidateToken := by
    rw [bind_assoc]
    rfl
  have hiff : KeepsPin (Swpasskey.ctlSetPin D pin) w ↔ (PinCall.ctlSetPin pin).HoldsWhen D w := by
    rw [hsplit]
    refine keepsPin_iff (fun o w₁ h => ?_) fun _ _ _ _ h => by cases h
    have hk := hchecks.apply h
    exact ⟨congrArg (fun t : Store × Option Store × PinManager => t.1.pin.hash) hk,
      congrArg (fun t : Store × Option Store × PinManager => t.2.1) hk⟩
  exact ⟨fun h => hiff.mp h.1, fun h => ⟨hiff.mpr h, (hiff.mpr h).noStaleToken⟩⟩

end SetPin

/-! ### Reset -/

section Reset

variable {D : Device} {w : World}

/-- `cmd_reset` from the wipe on. -/
def resetRest (D : Device) : Cmd Status Reply := do
  Store.wipe.orFail .other
  let _ ← regenerateKeyAgreement.attempt
  (reinitAfterReset D).orFail .other
  return .empty

theorem forEach_destroyKey_ne_err (l : List Credential) {r : Status} {w₁ w₂ : World} :
    forEach (destroyKey D) l w₁ ≠ (.err r, w₂) := by
  have h := Run.forEach (E := fun _ _ => False) (C := fun _ => True) (I := fun _ _ => True)
    (f := destroyKey D) (fun c _ _ _ => run_destroyKey (fun _ => trivial) (fun _ _ => trivial)
      (fun _ => trivial) fun _ => trivial) l w₁ trivial
  exact fun hr => h.err hr

/-- `cmd_reset`, cut at the wipe: the destruction of the keys reports no error. -/
theorem cmdReset_eq : cmdReset D = resetChecks D >>= fun _ => resetRest D := by
  have hfactory : ∀ w₁ : World, (Store.factoryReset (destroyKey D)).orFail .other w₁ =
      (forEach (destroyKey D) w₁.store.creds >>= fun _ => Store.wipe.orFail .other) w₁ :=
    fun w₁ => orFail_bind_apply (s := w₁) fun _ _ => forEach_destroyKey_ne_err _
  have happroved : resetApproved D = dropNext >>= fun _ => (gets World.store >>= fun s =>
      forEach (destroyKey D) s.creds >>= fun _ => Store.wipe.orFail .other) >>= fun _ =>
        regenerateKeyAgreement.attempt >>= fun _ => (reinitAfterReset D).orFail .other :=
    congrArg (dropNext >>= ·) (funext fun _ => congrArg (· >>= _) (funext hfactory))
  unfold cmdReset resetChecks resetRest
  rw [happroved]
  simp only [bind_assoc]

theorem resetChecks_keeps :
    Guarantees (Frame.keeps fun w => (w.store, w.pin)) (resetChecks D) := by
  have hproj : ∀ w w' : World, (w'.store, w'.file, w'.pin) = (w.store, w.file, w.pin) →
      (w'.store, w'.pin) = (w.store, w.pin) := fun _ _ h =>
    congrArg (fun t : Store × Option Store × PinManager => (t.1, t.2.2)) h
  refine Guarantees.bind ((confirmLocal_keeps _).mono hproj hproj) fun _ => ?_
  refine Guarantees.bind (fun _ => rfl) fun _ => (Guarantees.gets _).bind fun s => ?_
  refine Guarantees.forEach (fun c => Guarantees.of_run fun _ => ?_) s.creds
  exact run_destroyKey (fun _ => rfl) (fun _ _ => rfl) (fun _ => rfl) fun _ => rfl

/-- Only the prompt can fail before the wipe. -/
theorem resetChecks_err {r : Status} {w' : World} (h : resetChecks D w = (.err r, w')) :
    w'.store.pin.hash = w.store.pin.hash :=
  congrArg (fun t : Store × PinManager => t.1.pin.hash) (resetChecks_keeps.apply h)

/-- The wipe fails iff the persister does not do its part. -/
theorem wipe_err_iff : (∃ r w', Store.wipe w = (.err r, w')) ↔ ¬ ResetSaves w := by
  rcases eq_or_ne w.env.crash (some 0) with h0 | h0
  · have hno : ¬ ∃ r w', Store.wipe w = (.err r, w') := by
      rintro ⟨r, w', h⟩
      rw [Store.wipe_died h0] at h
      cases h
    exact iff_of_false hno (not_not_intro (.inl h0))
  rw [Store.wipe_apply h0]
  rcases hr : w.env.reset.head.1 with _ | _
  · refine iff_of_true ⟨.other, _, if_neg Bool.false_ne_true⟩ ?_
    rintro (hcrash | ⟨hreset, _⟩)
    · exact h0 hcrash
    · exact Bool.false_ne_true (hr.symm.trans hreset)
  rw [if_pos rfl]
  -- the persister is reset; the process may still die in the save
  rcases eq_or_ne w.env.crash (some 1) with h1 | h1
  · have hdied : (w.wiped.persisterReset w.env.afterReset true w.env.reset.head.2).env.crash =
        some 0 := congrArg (Option.map Nat.pred) h1
    have hno : ¬ ∃ r w', Store.flush .factoryReset
        (w.wiped.persisterReset w.env.afterReset true w.env.reset.head.2) = (.err r, w') := by
      rintro ⟨r, w', h⟩
      rw [Store.flush_died _ hdied] at h
      cases h
    exact iff_of_false hno (not_not_intro (.inr ⟨hr, .inl h1⟩))
  have halive : (w.wiped.persisterReset w.env.afterReset true w.env.reset.head.2).env.crash ≠
      some 0 := by
    change w.env.crash.map Nat.pred ≠ some 0
    rcases hc : w.env.crash with _ | _ | _ | n
    · simp
    · exact absurd hc h0
    · exact absurd hc h1
    · simp
  rw [Store.flush_apply _ halive]
  have hsave : (w.wiped.persisterReset w.env.afterReset true w.env.reset.head.2).env.save.head =
      w.env.save.head := rfl
  rw [hsave]
  rcases hs : w.env.save.head with _ | _
  · refine iff_of_true ⟨.other, _, rfl⟩ ?_
    rintro (hcrash | ⟨_, hcrash | hsave⟩)
    · exact h0 hcrash
    · exact h1 hcrash
    · exact Bool.false_ne_true (hs.symm.trans hsave)
  · refine iff_of_false ?_ (not_not_intro (.inr ⟨hr, .inr hs⟩))
    rintro ⟨r, w', h⟩
    cases congrArg Prod.fst h

/-- The wipe drops the PIN in memory however it ends, and leaves the manager alone. -/
theorem wipe_drops : Store.wipe.Run w (fun _ w' => w'.store.pin.hash = none ∧ ResetSaves w)
    (fun _ w' => w'.store.pin.hash = none ∧ w'.pin = w.pin ∧ ¬ ResetSaves w) fun _ => True := by
  have hpin : Store.wipe.Run w (fun _ w' => w'.store.pin.hash = none)
      (fun _ w' => w'.store.pin.hash = none ∧ w'.pin = w.pin) fun _ => True :=
    Store.run_wipe (fun _ _ _ => rfl) (fun _ _ _ => ⟨rfl, rfl⟩) (fun _ _ => ⟨rfl, rfl⟩)
      (fun _ => trivial) fun _ _ _ => trivial
  refine run_iff.mpr ⟨fun _ w' hw => ⟨hpin.ok hw, ?_⟩, fun r w' hw => ?_, fun _ _ => trivial⟩
  · by_contra hs
    obtain ⟨r, w'', hw'⟩ := wipe_err_iff.mpr hs
    cases hw.symm.trans hw'
  · exact ⟨(hpin.err hw).1, (hpin.err hw).2, wipe_err_iff.mp ⟨r, w', hw⟩⟩

theorem reinitAfterReset_keeps :
    Guarantees (Frame.keeps fun w => (w.store.pin, w.pin)) (reinitAfterReset D) := by
  refine Guarantees.ite (Guarantees.bind (Guarantees.of_run fun _ => ?_) fun _ => ?_)
    (Guarantees.pure _)
  · exact Store.run_tpmStateOrCreate (fun _ => rfl) (fun _ _ => rfl) (fun _ _ _ => rfl)
      (fun _ _ => rfl) fun _ _ => rfl
  · exact ((quiet_ask _).guarantees fun _ _ => rfl).bind fun _ => Guarantees.require _ _

/-- A wipe that fails has dropped the PIN and left the token; one that succeeds leads to the
end of the token, whatever fails after it. -/
theorem resetRest_err {r : Status} {w' : World} (h : resetRest D w = (.err r, w')) :
    w'.store.pin.hash = none ∧
      (ResetSaves w → w'.pin.token = none) ∧ (¬ ResetSaves w → w'.pin.token = w.pin.token) := by
  have hrun : (resetRest D).Run w (fun _ _ => True) (fun _ w' => w'.store.pin.hash = none ∧
      (ResetSaves w → w'.pin.token = none) ∧ (¬ ResetSaves w → w'.pin.token = w.pin.token))
      fun _ => True := by
    rw [resetRest, run_bind, run_orFail]
    refine wipe_drops.mono (fun _ w₂ hw₂ => ?_) (fun _ w₂ hw₂ => ?_) fun _ _ => trivial
    · rw [run_bind, run_attempt, regenerateKeyAgreement, run_bind, invalidateToken, update,
        run_modify, run_bind]
      refine run_ask (fun k e => ?_) fun _ => trivial
      have hreinit : ∀ w₃ : World, w₃.store.pin.hash = none → w₃.pin.token = none →
          ((reinitAfterReset D).orFail .other >>= fun _ =>
            pure Reply.empty : Cmd Status Reply).Run w₃
            (fun _ _ => True) (fun _ w' => w'.store.pin.hash = none ∧
              (ResetSaves w → w'.pin.token = none) ∧ (¬ ResetSaves w → w'.pin.token = w.pin.token))
            fun _ => True := by
        intro w₃ hhash htoken
        rw [run_bind, run_orFail]
        refine (reinitAfterReset_keeps.run w₃).mono (fun _ _ _ => trivial) (fun _ w₄ h₄ => ?_)
          fun _ _ => trivial
        obtain ⟨hpin, hman⟩ := Prod.mk.inj h₄
        exact ⟨by rw [hpin, hhash], fun _ => by rw [hman, htoken], fun hs => absurd hw₂.2 hs⟩
      rcases k with _ | k
      · exact hreinit _ hw₂.1 rfl
      · exact hreinit _ hw₂.1 rfl
    · exact ⟨hw₂.1, fun hs => absurd hs hw₂.2.2, fun _ => congrArg PinManager.token hw₂.2.1⟩
  exact hrun.err h

theorem resetRest_of_not_saves {w₁ : World} (h : ¬ ResetSaves w₁) :
    ∃ r w', resetRest D w₁ = (.err r, w') := by
  obtain ⟨r, w', hw⟩ := wipe_err_iff.mpr h
  refine ⟨.other, w', bind_apply_err ?_⟩
  rw [orFail, mapErr, hw]

theorem reset_failsCleanly_iff :
    PinCall.reset.FailsCleanly D w ↔ PinCall.reset.HoldsWhen D w := by
  have hkeeps : ∀ {w₁}, resetChecks D w = (.ok (), w₁) → w₁.pin = w.pin := fun h =>
    congrArg (fun t : Store × PinManager => t.2) (resetChecks_keeps.apply h)
  constructor
  · intro h
    by_contra hbad
    simp only [PinCall.HoldsWhen, not_or, not_forall] at hbad
    obtain ⟨hhash, htoken, w₁, hchecks, hsaves⟩ := hbad
    obtain ⟨t, ht⟩ := Option.ne_none_iff_exists'.mp htoken
    obtain ⟨r, w', hrest⟩ := resetRest_of_not_saves (D := D) hsaves
    have hw' : cmdReset D w = (.err r, w') := by
      rw [cmdReset_eq, bind_apply_ok hchecks, hrest]
    obtain ⟨hnone, _, hsame⟩ := resetRest_err hrest
    -- the PIN is gone, and the token that was issued under it is not
    refine h r w' hw' ⟨fun heq => hhash (heq.symm.trans hnone), t, ht, ?_⟩
    rw [hsame hsaves, hkeeps hchecks, ht]
  · rintro h r w' hw' ⟨hhash, t, ht, ht'⟩
    rw [cmdReset_eq] at hw'
    rcases bind_apply_eq_err hw' with hc | ⟨_, w₁, hc, hrest⟩
    · exact hhash (resetChecks_err hc)
    obtain ⟨hnone, hdropped, _⟩ := resetRest_err hrest
    rcases h with h | h | h
    · exact hhash (hnone.trans h.symm)
    · rw [h] at ht
      cases ht
    · rw [hdropped (h w₁ hc)] at ht'
      cases ht'


end Reset

/-! ### All of them -/

/-- **Failed PIN operations.** A setPIN, changePIN, local set-pin or reset fails cleanly iff
the persister does its part once the checks have passed, or nothing depends on it. -/
theorem failsCleanly_iff (D : Device) (w : World) (c : PinCall) :
    c.FailsCleanly D w ↔ c.HoldsWhen D w := by
  cases c with
  | setPin key enc auth => exact setPin_failsCleanly_iff key enc auth
  | changePin key pinHashEnc enc auth => exact changePin_failsCleanly_iff key pinHashEnc enc auth
  | ctlSetPin pin => exact ctlSetPin_failsCleanly_iff pin
  | reset => exact reset_failsCleanly_iff

/-- A first PIN, set locally, whose save fails: the error is reported and the PIN is in
force. -/
theorem not_failsCleanly_ctlSetPin : ¬ (PinCall.ctlSetPin (ascii "1234")).FailsCleanly
    Device.plain (World.fresh { Env.calm 0 with save := Stream'.const false }) := by
  intro h
  have hkeep := (h.1 .other _ rfl).1
  cases hkeep

end Swpasskey
