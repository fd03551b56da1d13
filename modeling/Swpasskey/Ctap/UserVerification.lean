import Swpasskey.Ctap.Pending
import Swpasskey.Ctap.PinGuesses

/-!
# User verification

A response with UV = 1 follows a successful `verify` in the same call (for getNextAssertion,
in the getAssertion that opened the list), and every successful `verify` is with the token
that was issued last, after a correct check of the PIN then in force, within its time, its
permissions and its RP (`uv_sound`).

What ends the life of a token in the log is the installation or the wipe of a PIN, a wrong
PIN, a new token or a restart. The invariant `TokenCurrent` says that the token in memory is
still alive in this sense. There is one way around it: when the persister cannot reset its
file, a factory reset stops after the PIN is wiped and before the token is dropped. So the
runs are those in which no persister reset fails in a process that has issued a token.
-/

namespace Swpasskey

open Proc

/-! ### The life of a token, in the log -/

namespace Event

/-- The event does not end the life of a token. -/
def KeepsToken : Event → Prop
  | pinInstalled _ | pinWiped | pinCompared _ false | tokenIssued _ _ _ _ | restarted => False
  | _ => True

/-- The event has nothing to do with the token. -/
def BesideToken : Event → Prop
  | pinInstalled _ | pinWiped | pinCompared _ false | tokenIssued _ _ _ _ | restarted
  | tokenVerified _ _ _ _ _ _ _ => False
  | _ => True

theorem BesideToken.keeps {ev : Event} (h : ev.BesideToken) : ev.KeepsToken := by
  cases ev with
  | pinCompared hash equal => cases equal <;> exact h
  | _ => first | exact h | trivial

end Event

/-- The time a token was issued or, if it has been since, last verified. -/
def lastTouch (issuedAt : ℕ) (since : List Event) : ℕ :=
  since.foldl (fun t ev => match ev with
    | .tokenVerified _ _ _ _ _ _ touchedAt => touchedAt
    | _ => t) issuedAt

/-- The log ends with a correct check of the PIN, apart from saves. -/
def PinChecked (log : List Event) : Prop :=
  ∃ l hash flushes, log = l ++ .pinCompared hash true :: flushes ∧
    ∀ ev ∈ flushes, ∃ m ok, ev = .flushed m ok

/-- In the log, a token with these bytes and permissions was issued right after a correct
check of the PIN, and its life has not ended since. `R` is about the RP and the time given
at its issue and the events since. -/
def IssuedIn (log : List Event) (bytes : Block 32) (permissions : UInt8)
    (R : Option Bytes → ℕ → List Event → Prop) : Prop :=
  ∃ before rpId issuedAt since,
    log = before ++ .tokenIssued bytes permissions rpId issuedAt :: since ∧ PinChecked before ∧
      (∀ ev ∈ since, ev.KeepsToken) ∧ R rpId issuedAt since

/-- **What a successful verification must be**, after `log`: the parameter is the MAC of the
client data hash under the token issued last; the token's life has not ended; it has the
permission; it is not past its idle timeout; and it has not been given to or verified for
another RP. -/
def Legitimate (D : Device) (log : List Event) (bytes : Block 32) (param : Bytes)
    (clientDataHash : Block 32) (permission : UInt8) (rpId : Bytes) (now : ℕ) : Prop :=
  param = (D.provider.hmacSha256 bytes.bytes clientDataHash.bytes).bytes ∧
    ∃ permissions, permissions &&& permission ≠ 0 ∧
      IssuedIn log bytes permissions fun rpId₀ issuedAt since =>
        now ≤ lastTouch issuedAt since + D.pinTokenIdleTimeout ∧ (∀ r, rpId₀ = some r → r = rpId) ∧
          ∀ b p h perm r n t, .tokenVerified b p h perm r n t ∈ since → b = bytes ∧ r = rpId

/-- Every successful verification in the log is legitimate. -/
def AllLegitimate (D : Device) (log : List Event) : Prop :=
  ∀ l bytes param hash permission rpId now touched,
    l ++ [.tokenVerified bytes param hash permission rpId now touched] <+: log →
      Legitimate D l bytes param hash permission rpId now

/-- The token in memory is alive, with what the log says about its RP and its time. -/
def Live (D : Device) (log : List Event) (t : PinUvAuthToken) : Prop :=
  IssuedIn log t.bytes t.permissions fun rpId₀ issuedAt since =>
    t.expiry = lastTouch issuedAt since + D.pinTokenIdleTimeout ∧
      (∀ r, rpId₀ = some r → t.permissionsRpId = some r) ∧
        ∀ b p h perm r n touched, .tokenVerified b p h perm r n touched ∈ since →
          b = t.bytes ∧ t.permissionsRpId = some r

section Log

variable {D : Device} {log : List Event} {ev : Event} {t : PinUvAuthToken}

theorem lastTouch_concat (issuedAt : ℕ) (since : List Event) (h : ev.BesideToken) :
    lastTouch issuedAt (since ++ [ev]) = lastTouch issuedAt since := by
  rw [lastTouch, List.foldl_append]
  cases ev <;> first | exact h.elim | rfl

theorem AllLegitimate.concat (h : AllLegitimate D log)
    (hev : ∀ bytes param hash permission rpId now touched,
      ev = .tokenVerified bytes param hash permission rpId now touched →
        Legitimate D log bytes param hash permission rpId now) : AllLegitimate D (log ++ [ev]) := by
  intro l bytes param hash permission rpId now touched hl
  rcases List.prefix_concat_iff.mp hl with hlog | hl
  · obtain ⟨rfl, hlast⟩ := List.append_inj' hlog rfl
    exact hev _ _ _ _ _ _ _ (List.singleton_inj.mp hlast).symm
  · exact h l bytes param hash permission rpId now touched hl

theorem Live.concat (h : Live D log t) (hev : ev.BesideToken) : Live D (log ++ [ev]) t := by
  obtain ⟨before, rpId₀, issuedAt, since, rfl, hchecked, hkeeps, hexpiry, hbound, hverified⟩ := h
  refine ⟨before, rpId₀, issuedAt, since ++ [ev], by simp, hchecked, fun ev' hev' => ?_,
    ?_, hbound, ?_⟩
  · rcases List.mem_append.mp hev' with hev' | hev'
    · exact hkeeps ev' hev'
    · exact List.mem_singleton.mp hev' ▸ hev.keeps
  · rw [lastTouch_concat issuedAt since hev]
    exact hexpiry
  · intro b p hash perm r n touched hmem
    rcases List.mem_append.mp hmem with hmem | hmem
    · exact hverified b p hash perm r n touched hmem
    · rw [← List.mem_singleton.mp hmem] at hev
      exact hev.elim

/-- A token that passes the checks of `verify` makes a legitimate verification. -/
theorem Live.legitimate (h : Live D log t) {param : Bytes} {hash : Block 32} {permission : UInt8}
    {rpId : Bytes} {now : ℕ} (hnow : now ≤ t.expiry)
    (hmac : param = (D.provider.hmacSha256 t.bytes.bytes hash.bytes).bytes)
    (hperm : t.permissions &&& permission ≠ 0) (hrp : ∀ r, t.permissionsRpId = some r → r = rpId) :
    Legitimate D log t.bytes param hash permission rpId now := by
  obtain ⟨before, rpId₀, issuedAt, since, hlog, hchecked, hkeeps, hexpiry, hbound, hverified⟩ := h
  refine ⟨hmac, t.permissions, hperm, before, rpId₀, issuedAt, since, hlog, hchecked, hkeeps,
    hexpiry ▸ hnow, fun r hr => hrp r (hbound r hr), fun b p h perm r n touched hmem => ?_⟩
  obtain ⟨hb, hr⟩ := hverified b p h perm r n touched hmem
  exact ⟨hb, hrp r hr⟩

/-- A verification touches the token and binds it to the RP. -/
theorem Live.touch (h : Live D log t) {param : Bytes} {hash : Block 32} {permission : UInt8}
    {rpId : Bytes} {now touched : ℕ} (hrp : ∀ r, t.permissionsRpId = some r → r = rpId) :
    Live D (log ++ [.tokenVerified t.bytes param hash permission rpId now touched])
      (PinManager.touch D t rpId touched) := by
  obtain ⟨before, rpId₀, issuedAt, since, rfl, hchecked, hkeeps, -, hbound, hverified⟩ := h
  refine ⟨before, rpId₀, issuedAt, since ++ [.tokenVerified t.bytes param hash permission rpId now
    touched], by simp [PinManager.touch], hchecked, fun ev' hev' => ?_, ?_, fun r hr => ?_, ?_⟩
  · rcases List.mem_append.mp hev' with hev' | hev'
    · exact hkeeps ev' hev'
    · exact List.mem_singleton.mp hev' ▸ trivial
  · rw [lastTouch, List.foldl_append]
    rfl
  · exact congrArg some (hrp r (hbound r hr)).symm
  · intro b p h perm r n touched' hmem
    rcases List.mem_append.mp hmem with hmem | hmem
    · obtain ⟨hb, hr⟩ := hverified b p h perm r n touched' hmem
      exact ⟨hb, congrArg some (hrp r hr).symm⟩
    · obtain ⟨rfl, -, -, -, rfl, -, -⟩ := Event.tokenVerified.inj (List.mem_singleton.mp hmem)
      exact ⟨rfl, rfl⟩

/-- A token right after its issue. -/
theorem PinChecked.issue (h : PinChecked log) (bytes : Block 32) (permissions : UInt8)
    (rpId : Option Bytes) (now : ℕ) : Live D (log ++ [.tokenIssued bytes permissions rpId now])
      ⟨bytes, permissions, rpId, now + D.pinTokenIdleTimeout⟩ :=
  ⟨log, rpId, now, [], rfl, h, fun _ h => (by cases h), rfl, fun _ h => h, fun _ _ _ _ _ _ _ h =>
    by cases h⟩

end Log

/-! ### The runs -/

/-- A persister reset failed in a process that had issued a token. -/
def Orphaned (log : List Event) : Prop :=
  ∃ l bytes permissions rpId issuedAt since gone l',
    log = l ++ .tokenIssued bytes permissions rpId issuedAt ::
      (since ++ .persisterReset false gone :: l') ∧ .restarted ∉ since

/-- A log in which no flush fails, and no persister reset fails in a process that has issued a
token. -/
structure Smooth (log : List Event) : Prop where
  flushed : ∀ m, .flushed m false ∉ log
  reset : ¬ Orphaned log

theorem Smooth.mono {l l' : List Event} (h : l <+: l') (hs : Smooth l') : Smooth l where
  flushed m hmem := hs.flushed m (h.subset hmem)
  reset := by
    obtain ⟨tail, rfl⟩ := h
    rintro ⟨l₀, bytes, permissions, rpId, issuedAt, since, gone, l₁, rfl, hsince⟩
    refine hs.reset ⟨l₀, bytes, permissions, rpId, issuedAt, since, gone, l₁ ++ tail, ?_, hsince⟩
    simp

/-- A token that is alive is orphaned by a failed persister reset. -/
theorem Live.orphaned {D : Device} {log : List Event} {t : PinUvAuthToken} (h : Live D log t)
    (gone : Bool) : Orphaned (log ++ [.pinWiped, .persisterReset false gone]) := by
  obtain ⟨before, rpId₀, issuedAt, since, rfl, -, hkeeps, -⟩ := h
  refine ⟨before, t.bytes, t.permissions, rpId₀, issuedAt, since ++ [.pinWiped], gone,
    [], by simp, ?_⟩
  intro hmem
  rcases List.mem_append.mp hmem with hmem | hmem
  · exact hkeeps _ hmem
  · exact Event.noConfusion (List.mem_singleton.mp hmem)

/-! ### The invariant -/

/-- The token in memory is alive and a PIN is set, and every verification so far was
legitimate. -/
def TokenCurrent (D : Device) (w : World) : Prop :=
  (∀ t, w.pin.token = some t → Live D w.log t ∧ w.store.pin.hash ≠ none) ∧ AllLegitimate D w.log

/-- The frame of `TokenCurrent` while the log is smooth. -/
def tokenFrame (D : Device) : Frame World :=
  whileOk Smooth (TokenCurrent D) (fun w => AllLegitimate D w.log) fun _ h => h.2

section Token

open PinManager

variable {D : Device} {w : World}

/-- An event that is not a verification. -/
theorem AllLegitimate.emit {log : List Event} (h : AllLegitimate D log) {ev : Event}
    (hev : ∀ bytes param hash permission rpId now touched,
      ev ≠ .tokenVerified bytes param hash permission rpId now touched) :
    AllLegitimate D (log ++ [ev]) :=
  h.concat fun _ _ _ _ _ _ _ heq => absurd heq (hev _ _ _ _ _ _ _)

theorem TokenCurrent.emit (h : TokenCurrent D w) {ev : Event} (hev : ev.BesideToken) :
    TokenCurrent D (w.emits [ev]) := by
  refine ⟨fun t ht => ⟨(h.1 t ht).1.concat hev, (h.1 t ht).2⟩, h.2.emit ?_⟩
  rintro _ _ _ _ _ _ _ rfl
  exact hev

theorem TokenCurrent.flushed (h : TokenCurrent D w) (m : Mutator) (e : Env) (ok : Bool) :
    TokenCurrent D (w.flushed m e ok) := by
  cases ok
  · exact h.emit (w := w.withEnv e) trivial
  · exact h.emit (w := w.withEnv e) trivial

/-- Without a token only the past counts. -/
theorem TokenCurrent.of_none (h : AllLegitimate D w.log) (hnone : w.pin.token = none) :
    TokenCurrent D w :=
  ⟨fun t ht => absurd (hnone.symm.trans ht) (by simp), h⟩

theorem token_verify (param : Bytes) (protocol : UInt64) (clientDataHash : Block 32)
    (permission : UInt8) (rpId : Bytes) :
    Guarantees (tokenFrame D) (verify D param protocol clientDataHash permission rpId) := by
  refine Guarantees.of_run fun w => run_verify (fun _ _ h => h) (fun _ _ h hs => ?_) ?_ fun _ h => h
  · exact .of_none (h hs).2 rfl
  · intro t e now touched ht hnow hmac hperm hrp
    refine whileOk_rel (fun _ _ => Smooth.mono) (List.prefix_append _ _) fun _ h => ?_
    obtain ⟨hlive, hpin⟩ := h.1 t ht
    refine ⟨fun t' ht' => ?_, h.2.concat ?_⟩
    · obtain rfl := Option.some.inj ht'
      exact ⟨hlive.touch hrp, hpin⟩
    · rintro _ _ _ _ _ _ _ heq
      obtain ⟨rfl, rfl, rfl, rfl, rfl, rfl, -⟩ := Event.tokenVerified.inj heq
      exact hlive.legitimate hnow hmac hperm hrp

theorem token_credNeutral (D : Device) : CredNeutral D (tokenFrame D) where
  env w e h := h
  store w s hs h hsmooth := ⟨fun t ht => ⟨((h hsmooth).1 t ht).1, by
    rw [hs]
    exact ((h hsmooth).1 t ht).2⟩, (h hsmooth).2⟩
  dropNext w h := h
  flushed w m e ok := whileOk_rel (fun _ _ => Smooth.mono) (w.log_prefix_flushed m e ok)
    fun _ h => h.flushed m e ok
  event w ev hev := whileOk_rel (fun _ _ => Smooth.mono) (List.prefix_append _ _) fun _ h =>
    h.emit (by cases ev <;> first | exact hev.elim | trivial)
  verify := token_verify

/-! ### The PIN commands -/

/-- While the log is smooth, the procedure keeps the token current, and its result is as `Q`
says. -/
def KeepsTokenCurrent {ε α : Type} (D : Device) (m : Cmd ε α) (w : World)
    (Q : α → World → Prop) : Prop :=
  m.Run w (fun a w' => Smooth w'.log → TokenCurrent D w' ∧ Q a w')
    (fun _ w' => Smooth w'.log → TokenCurrent D w') fun w' => Smooth w'.log → AllLegitimate D w'.log

theorem not_smooth_flushed {m : Mutator} {e : Env} : ¬ Smooth (w.flushed m e false).log := fun h =>
  h.flushed m (List.mem_append_right _ List.mem_cons_self)

/-- After a correct check the log ends with it. -/
theorem TokenCurrent.checkPinHash (h : TokenCurrent D w) (ss : SharedSecret) (enc : Bytes) :
    KeepsTokenCurrent D (checkPinHash D ss enc) w fun _ w' =>
      PinChecked w'.log ∧ w'.store.pin.hash ≠ none := by
  have hlegit : ∀ hash e b, AllLegitimate D (compared w hash e b).log := fun hash e b =>
    (h.2.emit fun _ _ _ _ _ _ _ => Event.noConfusion).emit fun _ _ _ _ _ _ _ => Event.noConfusion
  refine run_checkPinHash (fun _ _ _ => h) (fun _ _ => h.2) ?_ ?_ ?_
  · -- the retry could not be saved
    intro hash e _ _
    exact ⟨fun hs => absurd hs not_smooth_flushed, fun _ => h.2⟩
  · -- the PIN is wrong, and the token is gone
    intro hash e p e' r _ _ hnone
    exact ⟨fun _ => .of_none (hlegit hash e false) hnone, fun _ => hlegit hash e false⟩
  · intro hash e hhash _
    have hcompared : TokenCurrent D (withManager (compared w hash e true)
        { w.pin with consecutiveFailures := 0 }) := by
      refine ⟨fun t ht => ⟨((h.1 t ht).1.concat ?_).concat ?_, Option.some_ne_none hash⟩,
        hlegit hash e true⟩
      · trivial
      · trivial
    have hchecked : PinChecked (compared w hash e true).log :=
      ⟨w.log ++ [.flushed .setPin true], hash, [], rfl, fun _ h => by cases h⟩
    refine ⟨fun _ => ⟨hcompared, hchecked, Option.some_ne_none hash⟩, fun e' =>
      ⟨fun ok _ => ⟨?_, ?_, ?_⟩, fun _ => hlegit hash e true⟩⟩
    · refine TokenCurrent.flushed ?_ .setPin e' ok
      exact ⟨fun t ht => ⟨(hcompared.1 t ht).1, Option.some_ne_none hash⟩, hcompared.2⟩
    · refine ⟨w.log ++ [.flushed .setPin true], hash, [.flushed .setPin ok], ?_, fun ev hev => ?_⟩
      · cases ok
        · exact List.append_assoc _ _ _
        · exact List.append_assoc _ _ _
      · exact ⟨_, _, List.mem_singleton.mp hev⟩
    · cases ok
      · exact Option.some_ne_none hash
      · exact Option.some_ne_none hash

/-- A new PIN reaches the store; the token, if there is one, is not current any more. -/
theorem TokenCurrent.install (h : TokenCurrent D w) (hash : Block 16) : (install hash).Run w
    (fun _ w' => AllLegitimate D w'.log ∧ w'.pin = w.pin)
    (fun _ w' => Smooth w'.log → TokenCurrent D w') fun w' => AllLegitimate D w'.log := by
  have hlegit : AllLegitimate D (w.log ++ [.pinInstalled hash]) :=
    h.2.emit fun _ _ _ _ _ _ _ => Event.noConfusion
  refine run_install fun e => ⟨⟨?_, rfl⟩, fun hs => absurd hs not_smooth_flushed, hlegit⟩
  exact hlegit.emit fun _ _ _ _ _ _ _ => Event.noConfusion

theorem token_setPinLocal (pin : Bytes) : Guarantees (tokenFrame D) (setPinLocal D pin) := by
  refine guarantees_whileOk (fun _ _ => Smooth.mono)
    ((logs_pinOps (fun _ => Event.Work.inner) D).setPinLocal pin) fun w _ h => ?_
  refine run_bind.mpr ((quiet_hashPin pin).run_of (fun hash e => ?_) (fun _ _ _ => h)
    fun _ _ => h.2)
  have h' : TokenCurrent D (w.withEnv e) := h
  refine run_bind.mpr ((h'.install hash).mono (fun _ _ hw => ?_) (fun _ _ hw => hw)
    fun _ hw _ => hw)
  exact run_bind.mpr (run_modify.mpr (run_modify.mpr fun _ => TokenCurrent.of_none hw.1 rfl))

/-- setPIN is refused while a PIN is set, and without one there is no token. -/
theorem token_setPin (key : P256PublicKey) (newPinEnc auth : Bytes) :
    Guarantees (tokenFrame D) (setPin D key newPinEnc auth) := by
  refine guarantees_whileOk (fun _ _ => Smooth.mono)
    ((logs_pinOps (fun _ => Event.Work.inner) D).setPin key newPinEnc auth) fun w _ h => ?_
  refine run_bind.mpr (run_bind.mpr (run_gets.mpr (run_bind.mpr (run_require.mpr
    ⟨fun hunset => ?_, fun _ _ => h⟩))))
  have hnone : w.pin.token = none := by
    rcases ht : w.pin.token with _ | t
    · rfl
    · refine absurd ?_ (h.1 t ht).2
      simpa [pinSet] using hunset
  have hquiet : Quiet (sharedSecretFor D key >>= fun ss =>
      (pin2Authenticate D.provider ss.hmacKey.bytes newPinEnc).orFail .pinAuthInvalid >>= fun mac =>
        require (consttimeEqual mac.bytes auth) .pinAuthInvalid >>= fun _ =>
          pinFromPadded D ss newPinEnc) :=
    (quiet_sharedSecretFor key).bind fun ss => ((quiet_hmacSha256 _ _).orFail _).bind fun _ =>
      (Guarantees.require _ _).bind fun _ => quiet_pinFromPadded ss newPinEnc
  refine hquiet.run_of (fun hash e => ?_) (fun _ _ _ => h) fun _ _ => h.2
  have h' : TokenCurrent D (w.withEnv e) := h
  refine run_bind.mpr ((h'.install hash).mono (fun _ w' hw => ?_) (fun _ _ hw => hw)
    fun _ hw _ => hw)
  refine run_bind.mpr (run_modify.mpr fun _ => TokenCurrent.of_none hw.1 ?_)
  change w'.pin.token = none
  rw [hw.2]
  exact hnone

theorem token_changePin (key : P256PublicKey) (enc newPinEnc auth : Bytes) :
    Guarantees (tokenFrame D) (changePin D key enc newPinEnc auth) := by
  have hops := logs_pinOps (fun _ => Event.Work.inner) D
  refine guarantees_whileOk (fun _ _ => Smooth.mono) (hops.changePin key enc newPinEnc auth)
    fun w _ h => ?_
  refine run_bind.mpr (run_bind.mpr ?_)
  refine (quiet_sharedSecretFor key).run_of (fun ss e => ?_) (fun _ _ _ => h) fun _ _ => h.2
  refine run_bind.mpr (run_orFail.mpr ((quiet_hmacSha256 _ _).run_of (fun mac e => ?_)
    (fun _ _ _ => h) fun _ _ => h.2))
  refine run_bind.mpr (run_require.mpr ⟨fun _ => ?_, fun _ _ => h⟩)
  have h' : TokenCurrent D (w.withEnv e) := h
  refine run_bind.mpr (Run.weaken (h'.checkPinHash ss enc) fun _ w₁ hw₁ => ?_)
  -- from here on the old PIN is known to be right
  refine run_pure.mpr (run_whileOk (fun _ _ => Smooth.mono) ?_ fun hs => ?_)
  · exact ((quiet_pinFromPadded ss newPinEnc).guarantees hops.env).bind fun hash =>
      (hops.install hash).bind fun _ => (hops.update _).bind fun _ => Guarantees.pure _
  have h₁ := (hw₁ hs).1
  refine run_bind.mpr ((quiet_pinFromPadded ss newPinEnc).run_of (fun hash e => ?_)
    (fun _ _ _ => h₁)
    fun _ _ => h₁.2)
  have h₁' : TokenCurrent D (w₁.withEnv e) := h₁
  refine run_bind.mpr ((h₁'.install hash).mono (fun _ _ hw => ?_) (fun _ _ hw => hw)
    fun _ hw _ => hw)
  exact run_bind.mpr (run_modify.mpr fun _ => TokenCurrent.of_none hw.1 rfl)

/-- A token is issued right after a correct check. -/
theorem token_getToken (key : P256PublicKey) (enc : Bytes) (permissions : UInt8)
    (rpId : Option Bytes) : Guarantees (tokenFrame D) (getToken D key enc permissions rpId) := by
  have hops := logs_pinOps (fun _ => Event.Work.inner) D
  refine guarantees_whileOk (fun _ _ => Smooth.mono) (hops.getToken key enc permissions rpId)
    fun w _ h => ?_
  refine run_bind.mpr ((quiet_sharedSecretFor key).run_of (fun ss e => ?_) (fun _ _ _ => h)
    fun _ _ => h.2)
  have h' : TokenCurrent D (w.withEnv e) := h
  refine run_bind.mpr (Run.weaken (h'.checkPinHash ss enc) fun _ w₁ hw₁ => ?_)
  refine run_whileOk (fun _ _ => Smooth.mono) ?_ fun hs => ?_
  · refine ((quiet_random 32).guarantees hops.env).bind fun bytes => Guarantees.bind ?_ fun _ => ?_
    · exact ((quiet_ask _).guarantees hops.env).bind fun now => (hops.update _).bind fun _ =>
        fun w => hops.event w _ trivial
    · refine ((quiet_pin2Encrypt ss _).guarantees hops.env).attempt.bind fun r => ?_
      rcases r with _ | enc
      · exact (hops.update _).bind fun _ => Guarantees.throw _
      · exact Guarantees.pure _
  obtain ⟨h₁, hchecked, hpin⟩ := hw₁ hs
  refine run_bind.mpr ((quiet_random 32).run_of (fun bytes e => ?_) (fun _ _ _ => h₁)
    fun _ _ => h₁.2)
  refine run_bind.mpr (run_bind.mpr (run_ask (fun now e => ?_) fun _ _ => h₁.2))
  refine run_bind.mpr (run_modify.mpr (run_emit.mpr ?_))
  have hlegit : AllLegitimate D (w₁.log ++ [.tokenIssued bytes permissions rpId now]) :=
    h₁.2.emit fun _ _ _ _ _ _ _ => Event.noConfusion
  refine run_bind.mpr (run_attempt.mpr ((quiet_pin2Encrypt ss _).run_of (fun enc e => ?_)
    (fun _ e => ?_) fun _ _ => hlegit))
  · refine run_pure.mpr fun _ => ⟨fun t ht => ?_, hlegit⟩
    obtain rfl := Option.some.inj ht
    exact ⟨hchecked.issue bytes permissions rpId now, hpin⟩
  · exact run_bind.mpr (run_modify.mpr fun _ => .of_none hlegit rfl)

theorem token_handle (body : Bytes) : Guarantees (tokenFrame D) (handle D body) := by
  refine (Guarantees.ofExcept _).bind fun q => ?_
  refine dispatch_induction (fun _ => Guarantees.throw _) (Guarantees.gets _)
    (quiet_getKeyAgreement.guarantees (token_credNeutral D).env) token_setPin token_changePin
    (fun key enc => token_getToken key enc _ _) (fun key enc perms rpId => ?_) q
  exact (Guarantees.require _ _).bind fun _ => (Guarantees.require _ _).bind fun _ =>
    (Guarantees.require _ _).bind fun _ => token_getToken _ _ _ _

/-! ### Resets -/

theorem run_regenerateKeyAgreement (h : AllLegitimate D w.log) : regenerateKeyAgreement.Run w
    (fun _ => TokenCurrent D) (fun _ => TokenCurrent D) fun w' => AllLegitimate D w'.log := by
  refine run_bind.mpr (run_modify.mpr (run_bind.mpr (run_ask (fun k e => ?_) fun _ => h)))
  rcases k with _ | k
  · exact TokenCurrent.of_none h rfl
  · exact TokenCurrent.of_none h rfl

/-- The wipe of a factory reset takes the PIN away under the token, which is dropped later. -/
theorem TokenCurrent.wipe (h : TokenCurrent D w) : Store.wipe.Run w
    (fun _ w' => AllLegitimate D w'.log) (fun _ w' => Smooth w'.log → TokenCurrent D w')
    fun w' => AllLegitimate D w'.log := by
  have hwiped : AllLegitimate D (w.log ++ [.pinWiped]) :=
    h.2.emit fun _ _ _ _ _ _ _ => Event.noConfusion
  have hreset : ∀ ok gone, AllLegitimate D (w.log ++ [.pinWiped] ++ [.persisterReset ok gone]) :=
    fun ok gone => hwiped.emit fun _ _ _ _ _ _ _ => Event.noConfusion
  refine Store.run_wipe (fun e e' gone => ?_) (fun e e' gone hs => ?_) (fun e gone hs => ?_)
    (fun _ => hwiped) fun e e' gone => hreset true gone
  · exact (hreset true gone).emit fun _ _ _ _ _ _ _ => Event.noConfusion
  · exact absurd hs not_smooth_flushed
  · -- the persister reset failed: there must not be a token
    refine .of_none (hreset false gone) ?_
    change w.pin.token = none
    rcases ht : w.pin.token with _ | t
    · rfl
    · refine absurd ?_ hs.reset
      have horphaned := (h.1 t ht).1.orphaned gone
      rwa [List.append_cons] at horphaned

/-- A reset, from the new key agreement on: there is no token any more. -/
theorem run_reset_rest (h : AllLegitimate D w.log) :
    (regenerateKeyAgreement.attempt >>= fun _ => (reinitAfterReset D).orFail .other :
      Cmd Status Unit).Run w (fun _ w' => Smooth w'.log → TokenCurrent D w')
      (fun _ w' => Smooth w'.log → TokenCurrent D w')
      fun w' => Smooth w'.log → AllLegitimate D w'.log := by
  have hcred := token_credNeutral D
  have hreinit : ∀ w', TokenCurrent D w' →
    ((reinitAfterReset D).orFail .other : Cmd Status Unit).Run
      w' (fun _ w'' => Smooth w''.log → TokenCurrent D w'')
      (fun _ w'' => Smooth w''.log → TokenCurrent D w'')
      fun w'' => Smooth w''.log → AllLegitimate D w''.log := fun w' h' =>
    (((guarantees_reinitAfterReset hcred.env hcred.sideOps.tpmStateOrCreate).orFail _).run w').mono
      (fun _ _ hw => hw fun _ => h') (fun _ _ hw => hw fun _ => h') fun _ hw => hw fun _ => h'
  exact run_bind.mpr (run_attempt.mpr ((run_regenerateKeyAgreement h).mono
    (fun _ w' h' => hreinit w' h') (fun _ w' h' => hreinit w' h') fun _ h' _ => h'))

theorem token_resetApproved (D : Device) : Guarantees (tokenFrame D) (resetApproved D) := by
  have hgrow := logGrows_credNeutral D
  have hpin := logs_pinOps (fun _ => Event.Work.inner) D
  refine guarantees_whileOk (fun _ _ => Smooth.mono) (logGrows_pieces D).resetApproved
    fun w _ h => ?_
  refine run_bind.mpr (run_modify.mpr (run_bind.mpr (run_orFail.mpr ?_)))
  refine run_bind.mpr (run_gets.mpr (run_bind.mpr ?_))
  refine ((Guarantees.forEach (token_credNeutral D).destroyKey w.store.creds).run
    { w with next := none }).mono ?_ (fun _ _ hw hs => hw (fun _ => h) hs) fun _ hw hs =>
      hw (fun _ => h) hs
  intro _ w₁ hw₁
  refine (run_whileOk (fun _ _ => Smooth.mono) (logs_wipe fun _ => Event.Work.inner) fun hs =>
    (hw₁ (fun _ => h) hs).wipe.mono (fun _ _ hw _ => hw) (fun _ _ hw => hw) fun _ hw _ => hw).mono
      (fun _ w₂ hw₂ => ?_) (fun _ _ hw => hw) fun _ hw => hw
  refine run_whileOk (fun _ _ => Smooth.mono) ?_ fun hs => run_reset_rest (hw₂ hs)
  exact hpin.regenerateKeyAgreement.attempt.bind fun _ =>
    (guarantees_reinitAfterReset hgrow.env hgrow.sideOps.tpmStateOrCreate).orFail _

/-- Every call keeps the token current. -/
theorem token_pieces (D : Device) : Pieces D (tokenFrame D) :=
  (token_credNeutral D).pieces
    (fun _ _ _ => whileOk_rel (fun _ _ => Smooth.mono) (List.prefix_append _ _) fun _ h =>
      h.emit trivial)
    (fun _ _ h => h)
    ((token_credNeutral D).workOps (token_resetApproved D) token_handle token_setPinLocal)

end Token

/-! ### Answers with user verification -/

/-- The answer claims user verification. -/
def Answer.Uv : Answer → Prop
  | .cbor (.attestation authData _) => authData.uv
  | .cbor (.assertion _ authData _ _ _) => authData.uv
  | _ => False

/-- The request of a makeCredential or getAssertion carries this pinUvAuthParam, with this
client data hash, and is for this RP and so for this permission. -/
def Call.Carries (c : Call) (param : Bytes) (clientDataHash : Block 32) (permission : UInt8)
    (rpId : Bytes) : Prop :=
  (∃ body q, c = .cbor (0x01 :: body) ∧ makeCredentialRequest body = .ok q ∧
    q.pinUvAuthParam = some param ∧ q.clientDataHash = clientDataHash ∧
      permission = PinManager.kPermMc ∧ q.rp.id = rpId) ∨
  (∃ body q, c = .cbor (0x02 :: body) ∧ getAssertionRequest body = .ok q ∧
    q.pinUvAuthParam = some param ∧ q.clientDataHash = clientDataHash ∧
      permission = PinManager.kPermGa ∧ q.rpId = rpId)

/-- Among the events there is the successful verification of what the request carries. -/
def Verified (c : Call) (evs : List Event) : Prop :=
  ∃ bytes param hash permission rpId now touched,
    .tokenVerified bytes param hash permission rpId now touched ∈ evs ∧
      c.Carries param hash permission rpId

section Answers

variable {D : Device} {b w w' : World} {c : Call}

theorem Reached.verified_grow (h : Reached (Verified c) b w) (hw : logGrows.rel w w') :
    Reached (Verified c) b w' := by
  obtain ⟨evs, hlog, hinner, bytes, param, hash, permission, rpId, now, touched, hmem,
    hcarries⟩ := h
  obtain ⟨evs', hlog', hinner'⟩ := hw
  refine ⟨evs ++ evs', by rw [hlog', hlog, List.append_assoc], fun ev hev => ?_, bytes, param, hash,
    permission, rpId, now, touched, List.mem_append_left _ hmem, hcarries⟩
  exact (List.mem_append.mp hev).elim (hinner ev) (hinner' ev)

/-- `check_pin_auth` answers `true` only after a verification of its parameter. -/
theorem checkPinAuth_verified (hw : logGrows.rel b w) (param : Option Bytes)
    (protocol : Option UInt64) (hash : Block 32) (permission : UInt8) (rpId : Bytes)
    (rpIdHash : Block 32) (isMake : Bool)
    (hc : ∀ p, param = some p → c.Carries p hash permission rpId) :
    (checkPinAuth D param protocol hash permission rpId rpIdHash isMake).Run w
      (fun uv w' => uv = true → Reached (Verified c) b w') (fun _ _ => True) fun _ => True := by
  refine run_checkPinAuth (fun _ _ => trivial) (fun _ h => by cases h) (fun _ _ _ _ => trivial)
    (fun _ _ => trivial) (fun t e now touched p hp _ _ _ _ _ _ => ?_) fun _ => trivial
  obtain ⟨evs, hlog, hinner⟩ := hw
  refine ⟨evs ++ [.tokenVerified t.bytes p hash permission rpId now touched], ?_, fun ev hev => ?_,
    t.bytes, p, hash, permission, rpId, now, touched, List.mem_append_right _
      List.mem_cons_self, hc p hp⟩
  · change w.log ++ _ = _
    rw [hlog, List.append_assoc]
  · rcases List.mem_append.mp hev with hev | hev
    · exact hinner ev hev
    · exact List.mem_singleton.mp hev ▸ trivial

/-- The UV flag of an attestation is the one the checks gave. -/
theorem createCredential_uv (q : MakeCredentialRequest) (uv : Bool) :
    Returns (createCredential D q uv) fun r => (Answer.cbor r).Uv → uv = true := by
  refine Returns.bind_right fun kc => Returns.bind_right fun _ => Returns.bind_right fun _ =>
    Returns.bind_right fun _ => Returns.bind_right fun sig => Returns.pure fun huv => ?_
  rw [Answer.Uv, AuthData.uv, or_kFlagEd_and _ _ (by decide)] at huv
  cases uv
  · exact absurd rfl huv
  · rfl

theorem cmdMakeCredential_verified (body : Bytes) (hw : logGrows.rel b w) :
    (cmdMakeCredential D body).Run w
      (fun r w' => (Answer.cbor r).Uv → Reached (Verified (.cbor (0x01 :: body))) b w')
      (fun _ _ => True) fun _ => True := by
  have hops := (logGrows_pieces D).toCheckOps
  refine run_bind.mpr (run_bind.mpr (run_ofExcept.mpr ⟨fun q hq => ?_, fun _ _ => trivial⟩))
  refine run_bind.mpr ((checkPinAuth_verified (c := .cbor (0x01 :: body)) hw _ _ _ _ _ _ _
    fun p hp => .inl ⟨body, q, rfl, hq, hp, rfl, rfl, rfl⟩).weaken fun uv w₁ h₁ => ?_)
  -- the other checks only add to the log and hand the flag on
  refine run_bind.mpr (run_gets.mpr (run_bind.mpr ?_))
  refine ((hops.confirmUp _ _ _ _).run w₁).onReturn (fun d w₂ h₂ => ?_)
  refine run_bind.mpr (run_require.mpr ⟨fun _ => ?_, fun _ => trivial⟩)
  refine run_bind.mpr (run_require.mpr ⟨fun _ => ?_, fun _ => trivial⟩)
  refine run_bind.mpr (run_decision (fun _ => ?_) fun _ _ => trivial)
  refine run_bind.mpr (run_gets.mpr (run_bind.mpr
    (run_require.mpr ⟨fun _ => ?_, fun _ => trivial⟩)))
  refine run_pure.mpr ((((logGrows_pieces D).createCredential q uv).run w₂).and
    (createCredential_uv q uv w₂) |>.onReturn ?_)
  rintro r w' ⟨hgrow, huv⟩ hr
  exact (h₁ (huv hr)).verified_grow (logGrows.trans h₂ hgrow)

/-- The frame of the checks and the prompt of a getAssertion. -/
theorem quietList_checkOps (D : Device) : CheckOps D (logGrows.and listKept) :=
  (logGrows_pieces D).toCheckOps.and (listKept_u2fOps D).toCheckOps

/-- A getAssertion answers, and leaves a list, with the UV flag only after a verification. -/
theorem cmdGetAssertion_verified (body : Bytes) (hw : logGrows.rel b w) :
    (cmdGetAssertion D body).Run w
      (fun r w' => ((Answer.cbor r).Uv → Reached (Verified (.cbor (0x02 :: body))) b w') ∧
        ∀ st, w'.next = some st → st.flags &&& kFlagUv ≠ 0 →
          Reached (Verified (.cbor (0x02 :: body))) b w')
      (fun _ w' => w'.next = none) fun _ => True := by
  refine run_bind.mpr (run_modify.mpr (run_bind.mpr
    (run_ofExcept.mpr ⟨fun q hq => ?_, fun _ _ => rfl⟩)))
  refine run_bind.mpr (run_gets.mpr (run_bind.mpr ?_))
  -- UV comes from this check alone, and the list inherits it
  have hcheck := checkPinAuth_verified (D := D) (b := b) (w := { w with next := none })
    (c := .cbor (0x02 :: body)) hw q.pinUvAuthParam q.pinUvAuthProtocol q.clientDataHash
    PinManager.kPermGa q.rpId (D.provider.sha256 q.rpId) false
    fun p hp => .inr ⟨body, q, rfl, hq, hp, rfl, rfl, rfl⟩
  refine ((((quietList_checkOps D).checkPinAuth _ _ _ _ _ _ _).run _).and hcheck).mono ?_
    (fun _ _ h₁ => h₁.1.2.elim id id) fun _ _ => trivial
  rintro uv w₁ ⟨⟨hlog₁, hnext₁⟩, huv⟩
  dsimp only
  rcases sortCandidates (candidates w.store (D.provider.sha256 q.rpId) q.allowList)
    with _ | ⟨first, rest⟩
  · exact hnext₁.elim id id
  refine run_assertFirst_of_work (M := fun w₂ => uv = true →
    Reached (Verified (.cbor (0x02 :: body))) b w₂) ?_ ?_ (fun _ _ _ _ _ hn => hn)
      fun _ _ _ _ => trivial
  · refine (((quietList_checkOps D).confirmAssertion q _ first).run w₁).mono ?_
      (fun _ _ h₂ => h₂.2.elim (fun hn => hn.trans (hnext₁.elim id id)) id) fun _ _ => trivial
    rintro _ w₂ ⟨hlog₂, hnext₂⟩
    exact ⟨hnext₂.elim (fun hn => hn.trans (hnext₁.elim id id)) id,
      fun h => (huv h).verified_grow hlog₂⟩
  · intro w₂ r w' hM hwork his hflags
    have hgrow : logGrows.rel w₂ w' := by
      obtain ⟨evs, hlog, hevs⟩ := hwork
      exact ⟨evs, hlog, fun ev hev => (hevs ev hev).inner⟩
    obtain ⟨_, authData, _, _, _, rfl, -, huv', -⟩ := his.flags
    refine ⟨fun hr => ?_, fun st hst hst' => ?_⟩
    · exact (hM ((assertionFlags_uv uv q.up).mp (huv'.mp hr))).verified_grow hgrow
    · rw [hflags st hst] at hst'
      exact (hM ((assertionFlags_uv uv q.up).mp hst')).verified_grow hgrow

/-- The list has the UV flag only if the call that opened it was verified. -/
def ListVerified : World → Prop :=
  ListInv (fun flags => flags &&& kFlagUv ≠ 0) fun _ body evs => Verified (.cbor (0x02 :: body)) evs

theorem ListVerified.call (h : ListVerified w) (c : Call) (env : Env) :
    ListVerified (w.call D c env) := by
  refine ListInv.call h fun body hc => ?_
  exact (cmdGetAssertion_verified (b := w.begin c env) body (logs_of_eq rfl)).weaken
    fun _ _ hw => hw.2

/-- An answer with user verification follows a verification in its call, or comes from a list
with the UV flag. -/
theorem answer_verified (c : Call) : (answer D c).Run b
    (fun a w' => a.Uv → Reached (Verified c) b w' ∨
      (∃ rest, c = .cbor (0x08 :: rest)) ∧ ∃ st, b.next = some st ∧ st.flags &&& kFlagUv ≠ 0)
    (fun _ _ => True) fun _ => True := by
  refine run_answer (logGrows_pieces D).toCallOps ?_ (fun _ _ _ => trivial) (fun _ _ => trivial)
    ?_ ?_ ?_ ?_
  · intro a w' hplain _ huv
    cases a with
    | cbor r => cases r <;> first | exact hplain.elim | exact huv.elim
    | _ => exact huv.elim
  · rintro body rfl
    exact (cmdMakeCredential_verified body (logs_of_eq rfl)).weaken fun _ _ hw _ =>
      ⟨fun huv => .inl (hw huv), trivial⟩
  · rintro body rfl
    exact (cmdGetAssertion_verified (b := b) body (logs_of_eq rfl)).onReturn
      fun _ _ hw _ => ⟨fun huv => .inl (hw.1 huv), trivial⟩
  · rintro rest rfl
    refine (cmdGetNextAssertion_spec b).onReturn ?_
    rintro r w' ⟨st, cred, hst, his, -, -⟩ e
    obtain ⟨_, _, _, _, _, rfl, -, huv, -⟩ := his.flags
    exact ⟨fun h => .inr ⟨⟨rest, rfl⟩, st, hst, huv.mp h⟩, trivial⟩
  · rintro apdu req rfl - - -
    exact run_onReturn.mpr fun _ _ _ _ => ⟨False.elim, trivial⟩

end Answers

/-! ### Every run -/

/-- The hash of the PIN in force. -/
def PinHistory.inForce (h : PinHistory) : Option (Block 16) := h.mem.bind fun i => h.installed[i]?

/-- What holds of the call `c` from `w` to `w'`, and of everything before. -/
structure UvSound (D : Device) (w : World) (c : Call) (w' : World) : Prop where
  /-- An answer with user verification follows a successful verification of what its request
  carries, or of what the getAssertion carried that opened the list. -/
  verified : ∃ evs last, w'.log = w.log ++ .called c :: (evs ++ [last]) ∧ (∀ ev ∈ evs, ev.Inner) ∧
    ∀ a, last = .answered c a → a.Uv → Verified c evs ∨
      (∃ rest, c = .cbor (0x08 :: rest)) ∧
        OpenedBy (fun _ body evs => Verified (.cbor (0x02 :: body)) evs) w.log
  /-- Every successful verification is with the current token. -/
  legitimate : AllLegitimate D w'.log
  /-- The PIN a check compares with is the one in force. -/
  inForce : ∀ l hash equal, l ++ [.pinCompared hash equal] <+: w'.log →
    (pinHistory l).inForce = some hash

/-- The event is a failure of the persister. -/
def Event.failed : Event → Bool
  | .flushed _ ok | .persisterReset ok _ => !ok
  | _ => false

theorem Smooth.of_not_failed {log : List Event} (h : ∀ ev ∈ log, ev.failed = false) :
    Smooth log where
  flushed m hmem := Bool.noConfusion (h _ hmem)
  reset := by
    rintro ⟨l, bytes, permissions, rpId, issuedAt, since, gone, l', rfl, -⟩
    exact Bool.noConfusion (h (.persisterReset false gone) (by simp))

/-- A PIN is set and a token is issued, with all its bytes 2. -/
def tokenSteps : List Step :=
  [.call (.ctlSetPin (ascii "1234")) (.calm 1),
    .call (.getPinToken (List.replicate 16 0 ++ (ascii "1234" ++ List.replicate 12 0))) (.calm 2)]

/-- The parameter of an all-zero client data hash under that token, in the plain device. -/
def tokenParam : Bytes := List.replicate 16 2 ++ List.replicate 16 0

/-- **User verification is sound.** In every run of a fresh installation in which no flush fails
and no persister reset fails in a process that has issued a token, however the user answers and
wherever the process dies and restarts, every call is as `UvSound` says. -/
theorem uv_sound (D : Device) (env₀ : Env) (steps : List Step) (c : Call) (env : Env)
    (h : Smooth (((World.fresh env₀).run D steps).call D c env).log) :
    UvSound D ((World.fresh env₀).run D steps) c
      (((World.fresh env₀).run D steps).call D c env) := by
  have hrun : ((World.fresh env₀).run D steps).call D c env =
      (World.fresh env₀).run D (steps ++ [.call c env]) := by
    rw [World.run, World.run, List.foldl_append]
    rfl
  -- the list law and the token law are two inductions over the run
  have hlist : ListVerified ((World.fresh env₀).run D steps) :=
    World.run_induction (I := ListVerified) (fun _ c e h => ListVerified.call h c e)
      (fun _ _ _ => ListInv.restart _) steps fun st hst => by cases hst
  have hlegit : AllLegitimate D (((World.fresh env₀).run D steps).call D c env).log := by
    rw [hrun] at h ⊢
    have hfresh : TokenCurrent D (World.fresh env₀) :=
      .of_none (fun l _ _ _ _ _ _ _ hl => absurd (List.prefix_nil.mp hl) (by simp)) rfl
    refine (World.run_whileOk (fun _ _ => Smooth.mono) (token_pieces D) (fun _ _ hw => hw)
      (fun w ev hev hw => hw.emit ?_) (fun w _ hw => .of_none ?_ rfl) hfresh _ h).2
    · cases ev <;> first | exact hev.elim | trivial
    · exact hw.emit fun _ _ _ _ _ _ _ => Event.noConfusion
  refine ⟨?_, hlegit, fun l hash equal hl => ?_⟩
  · set w := (World.fresh env₀).run D steps
    have hgrow := ((logGrows_pieces D).answer c).run (w.begin c env)
    refine World.call_of_run (P := fun w' => ∃ evs last,
      w'.log = w.log ++ .called c :: (evs ++ [last]) ∧
      (∀ ev ∈ evs, ev.Inner) ∧ ∀ a, last = .answered c a → a.Uv → Verified c evs ∨
        (∃ rest, c = .cbor (0x08 :: rest)) ∧
          OpenedBy (fun _ body evs => Verified (.cbor (0x02 :: body)) evs) w.log)
      ((hgrow.and (answer_verified (b := w.begin c env) c)).mono ?_ ?_ ?_)
    · rintro a w' ⟨⟨evs, hlog, hinner⟩, huv⟩
      refine ⟨evs, .answered c a, by simp [World.emits, hlog, World.begin], hinner,
        fun a' ha hr => ?_⟩
      obtain rfl := (Event.answered.inj ha).2
      rcases huv hr with ⟨evs', hlog', -, hverified⟩ | ⟨hnext, st, hst, hflag⟩
      · exact .inl (List.append_cancel_left (hlog.symm.trans hlog') ▸ hverified)
      · exact .inr ⟨hnext, hlist st hst hflag⟩
    · rintro r w' ⟨⟨evs, hlog, hinner⟩, -⟩
      exact ⟨evs, .refused c r, by simp [World.emits, hlog, World.begin], hinner,
        fun _ ha => by cases ha⟩
    · rintro w' ⟨⟨evs, hlog, hinner⟩, -⟩
      exact ⟨evs, .restarted, by simp [World.restart, hlog, World.begin], hinner,
        fun _ ha => by cases ha⟩
  · rw [hrun] at hl
    obtain ⟨i, hmem, hhash, -⟩ := (PinInv.run D env₀ _).log.compared l hash equal hl
    rw [PinHistory.inForce, hmem]
    exact hhash

/-- A PIN is set, a token is issued and a credential is made with it. -/
theorem uv_sound_makeCredential :
    let w := (World.fresh (.calm 0)).run .plain tokenSteps
    let w' := w.call .plain (.makeCredentialWith [0x61] [1] tokenParam) (.calm 3)
    Smooth w'.log ∧ UvSound .plain w (.makeCredentialWith [0x61] [1] tokenParam) w' := by
  have h : Smooth (((World.fresh (.calm 0)).run .plain tokenSteps).call .plain
      (.makeCredentialWith [0x61] [1] tokenParam) (.calm 3)).log :=
    Smooth.of_not_failed (by decide +kernel)
  exact ⟨h, uv_sound .plain (.calm 0) tokenSteps _ (.calm 3) h⟩

/-- The event issues a token. -/
def Event.issues : Event → Bool
  | .tokenIssued _ _ _ _ => true
  | _ => false

/-- A token that is alive was issued after the last wipe of the PIN. -/
theorem IssuedIn.issued_since {l l' : List Event} {bytes : Block 32} {permissions : UInt8}
    {R : Option Bytes → ℕ → List Event → Prop}
    (h : IssuedIn (l ++ .pinWiped :: l') bytes permissions R) : ∃ ev ∈ l', ev.issues = true := by
  obtain ⟨before, rpId, issuedAt, since, hlog, -, hkeeps, -⟩ := h
  rcases List.append_eq_append_iff.mp hlog with ⟨mid, -, hmid⟩ | ⟨mid, -, hmid⟩
  · rcases mid with _ | ⟨_, mid⟩
    · cases hmid
    · obtain ⟨-, rfl⟩ := List.cons.inj hmid
      exact ⟨_, List.mem_append_right _ List.mem_cons_self, rfl⟩
  · rcases mid with _ | ⟨_, mid⟩
    · cases hmid
    · obtain ⟨-, rfl⟩ := List.cons.inj hmid
      exact (hkeeps .pinWiped (by simp)).elim

/-- After the token is issued the persister fails to reset its file, and a new PIN is set. -/
def orphanSteps : List Step := tokenSteps ++
  [.call .ctlReset { Env.calm 3 with reset := Stream'.const (false, false) },
    .call (.setPin (List.replicate 16 0 ++ (ascii "5678" ++ List.replicate 60 0))
      (List.replicate 32 0)) (.calm 4)]

/-- The token is not dropped by the reset that wiped the PIN: it verifies under the new one. -/
theorem not_uv_sound : ¬ ∀ (D : Device) (env₀ : Env) (steps : List Step) (c : Call) (env : Env),
    (∀ m, .flushed m false ∉ (((World.fresh env₀).run D steps).call D c env).log) →
      UvSound D ((World.fresh env₀).run D steps) c
        (((World.fresh env₀).run D steps).call D c env) := by
  intro h
  have hsound := h .plain (.calm 0) orphanSteps
    (.makeCredentialWith [0x61] [1] tokenParam) (.calm 5)
    (fun m => by cases m <;> decide +kernel)
  let log := (((World.fresh (.calm 0)).run .plain orphanSteps).call .plain
    (.makeCredentialWith [0x61] [1] tokenParam) (.calm 5)).log
  -- The PIN is wiped at 13 and the token, issued before, is verified at 21.
  have hverified : (log.take 13 ++ .pinWiped :: (log.take 21).drop 14) ++
      [.tokenVerified (Block.replicate 32 2) tokenParam (Block.replicate 32 0)
        PinManager.kPermMc [0x61] 0 0] <+: log := by
    decide +kernel
  have hissues : ∀ ev ∈ (log.take 21).drop 14, ev.issues = false := by decide +kernel
  obtain ⟨-, _, -, hissued⟩ := hsound.legitimate _ _ _ _ _ _ _ _ hverified
  obtain ⟨ev, hev, htrue⟩ := hissued.issued_since
  exact Bool.noConfusion (htrue.symm.trans (hissues ev hev))

end Swpasskey
