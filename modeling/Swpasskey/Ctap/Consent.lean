import Swpasskey.Ctap.Pending

/-!
# No user presence without consent

Over every run (`consented`): a success that claims user presence follows an Allow in the same
call, or, for getNextAssertion, in the getAssertion that opened the list; a call with a
prompt that was not answered with Allow leaves the rows and the PIN alone; and no hmac-secret
output is released without user presence.

Every command prompts at most once, before it does any work, so a call goes through these
phases: nothing asked and nothing touched (`Unasked`), then either Allow and free to work
(`Granted`), or the end.
-/

namespace Swpasskey

open Proc

/-- A success that claims that the user was present, or that must not happen without. -/
def Claims (c : Call) : Answer → Prop
  | .cbor (.attestation _ _) => True
  | .cbor (.assertion _ authData _ _ _) => authData.up
  | .cbor .empty => ∃ cmd rest, c = .cbor (cmd :: rest) ∧ (cmd = 0x07 ∨ cmd = 0x0B)
  | .u2f (.registered _ _ _ _) => True
  | .u2f (.signed presence _ _) => presence = 0x01
  | .done => c = .ctlReset ∨ ∃ pin, c = .ctlSetPin pin
  | _ => False

/-- A prompt was answered with Allow. -/
def Allowed (evs : List Event) : Prop := ∃ req, .prompted req .allow ∈ evs

/-- A prompt was answered with Deny, Timeout or Cancelled. -/
def Denied (evs : List Event) : Prop := ∃ req d, .prompted req d ∈ evs ∧ d ≠ .allow

/-- No hmac-secret output without user presence. -/
def KeepsSecret : Answer → Prop
  | .cbor (.assertion _ authData _ _ _) => authData.extensions ≠ [] → authData.up
  | _ => True

/-- What holds of one call, with the events `evs` and the end `last`, from `w` to `w'`. -/
structure Consented (w : World) (c : Call) (evs : List Event) (last : Event) (w' : World) :
    Prop where
  log : w'.log = w.log ++ .called c :: (evs ++ [last])
  inner : ∀ ev ∈ evs, ev.Inner
  /-- The success claims no more than the user has allowed. -/
  allowed : ∀ a, last = .answered c a → Claims c a →
    Allowed evs ∨
      (∃ rest, c = .cbor (0x08 :: rest)) ∧ OpenedBy (fun _ _ evs => Allowed evs) w.log
  /-- Nothing changes without consent, now and after a restart. -/
  denied : Denied evs → w'.file = w.file ∧
    (last ≠ .restarted → w'.store.creds = w.store.creds ∧ w'.store.pin = w.store.pin)
  secret : ∀ a, last = .answered c a → KeepsSecret a

/-! ### The phases of a call -/

/-- The rows and the PIN are what they were, in memory and in the file. -/
def Untouched (b w : World) : Prop :=
  w.store.creds = b.store.creds ∧ w.store.pin = b.store.pin ∧ w.file = b.file

/-- Nothing has been asked and nothing touched. -/
def Unasked (b w : World) : Prop := (logs Event.Work).rel b w ∧ Untouched b w

/-- The user has allowed what comes now. -/
def Granted (b w : World) : Prop := Reached (fun evs => ¬ Denied evs ∧ Allowed evs) b w

/-- Without consent nothing has been touched. -/
def Fair (b w : World) : Prop := Reached (fun evs => Denied evs → Untouched b w) b w

section Phases

variable {b w w' : World}

theorem not_denied_of_work {evs : List Event} (h : ∀ ev ∈ evs, ev.Work) : ¬ Denied evs := by
  rintro ⟨req, d, hmem, -⟩
  exact h _ hmem

theorem Unasked.refl (b : World) : Unasked b b := ⟨logs_of_eq rfl, rfl, rfl, rfl⟩

theorem Fair.of_work (h : (logs Event.Work).rel b w) : Fair b w := by
  obtain ⟨evs, hlog, hwork⟩ := h
  exact ⟨evs, hlog, fun ev hev => (hwork ev hev).inner, fun hd => absurd hd
    (not_denied_of_work hwork)⟩

theorem Granted.fair (h : Granted b w) : Fair b w := by
  obtain ⟨evs, hlog, hinner, hno, -⟩ := h
  exact ⟨evs, hlog, hinner, fun hd => absurd hd hno⟩

theorem Granted.work (h : Granted b w) (hw : (logs Event.Work).rel w w') : Granted b w' := by
  obtain ⟨evs, hlog, hinner, hno, req, hallow⟩ := h
  obtain ⟨evs', hlog', hwork⟩ := hw
  refine ⟨evs ++ evs', by rw [hlog', hlog, List.append_assoc], fun ev hev => ?_, ?_,
    req, List.mem_append_left _ hallow⟩
  · exact (List.mem_append.mp hev).elim (hinner ev) fun h => (hwork ev h).inner
  · rintro ⟨req', d, hmem, hd⟩
    rcases List.mem_append.mp hmem with hmem | hmem
    · exact hno ⟨req', d, hmem, hd⟩
    · exact hwork _ hmem

/-- The answer to a prompt. -/
theorem Unasked.prompted (h : Unasked b w) (req : PresenceRequest) (d : Decision)
    (hw : w' = w.emits [.prompted req d]) : (d = .allow → Granted b w') ∧ Fair b w' := by
  obtain ⟨⟨evs, hlog, hwork⟩, huntouched⟩ := h
  have hlog' : w'.log = b.log ++ (evs ++ [.prompted req d]) := by
    rw [hw, World.emits, hlog, List.append_assoc]
  have hinner : ∀ ev ∈ evs ++ [.prompted req d], ev.Inner := fun ev hev =>
    (List.mem_append.mp hev).elim (fun h => (hwork ev h).inner) fun h =>
      List.mem_singleton.mp h ▸ trivial
  refine ⟨fun hd => ⟨_, hlog', hinner, ?_, req, ?_⟩, _, hlog', hinner, fun _ => hw ▸ huntouched⟩
  · rintro ⟨req', d', hmem, hne⟩
    rcases List.mem_append.mp hmem with hmem | hmem
    · exact hwork _ hmem
    · exact hne ((Event.prompted.inj (List.mem_singleton.mp hmem)).2.trans hd)
  · exact List.mem_append_right _ (List.mem_singleton.mpr (hd ▸ rfl))

/-- The rest of a granted call. -/
theorem Granted.run {ε α : Type} {m : Cmd ε α} (h : Granted b w)
    (hm : Guarantees (logs Event.Work) m) :
    m.Run w (fun _ => Granted b) (fun _ => Granted b) (Granted b) :=
  (hm.run w).mono (fun _ _ hw => h.work hw) (fun _ _ hw => h.work hw) fun _ hw => h.work hw

end Phases

/-! ### The commands -/

section Commands

variable {D : Device} {b w : World}

/-- The work of every command. -/
theorem workOps (D : Device) : WorkOps D (logs Event.Work) :=
  (logs_credNeutral (fun _ h => h) D).workOps_of_pinOps (logs_wipe fun _ h => h)
    (logs_pinOps (fun _ h => h) D)

theorem run_confirmUp_of_unasked {ε : Type} (h : Unasked b w) (kind : PresenceKind)
    (rpId display : Bytes) (rpIdHash : Block 32) {E : ε → World → Prop} :
    (confirmUp kind rpId display rpIdHash : Cmd ε Decision).Run w
      (fun d w' => (d = .allow → Granted b w') ∧ Fair b w' ∧ w'.next = w.next) E (Fair b) := by
  have hfair : ∀ e, Fair b (w.withEnv e) := fun e => Fair.of_work h.1
  refine run_confirmUp (fun e => ⟨fun hd => (by cases hd), hfair e, rfl⟩) (fun d e => ?_) hfair
  have hp := Unasked.prompted (w := w.withEnv e) h ⟨kind, rpId, display, rpIdHash⟩ d rfl
  exact ⟨hp.1, hp.2, rfl⟩

theorem run_confirmLocal_of_unasked (h : Unasked b w) (kind : PresenceKind) :
    (confirmLocal kind).Run w (fun _ => Granted b) (fun _ => Fair b) (Fair b) :=
  run_bind.mpr ((run_confirmUp_of_unasked h _ _ _ _).weaken fun _ _ hw =>
    run_decision hw.1 fun _ _ => hw.2.1)

/-- A check of a pinUvAuthParam that succeeds has not prompted. -/
theorem run_checkPinAuth_of_unasked (h : Unasked b w) (param : Option Bytes)
    (protocol : Option UInt64) (clientDataHash : Block 32) (permission : UInt8) (rpId : Bytes)
    (rpIdHash : Block 32) (isMake : Bool) :
    (checkPinAuth D param protocol clientDataHash permission rpId rpIdHash isMake).Run w
      (fun _ w' => Unasked b w' ∧ w'.next = w.next) (fun _ w' => Fair b w' ∧ w'.next = w.next)
      (Fair b) := by
  have hfair : ∀ e, Fair b (w.withEnv e) := fun e => Fair.of_work h.1
  refine run_checkPinAuth (fun _ e => ⟨hfair e, rfl⟩) (fun _ => ⟨h, rfl⟩)
    (fun r req d e => ⟨?_, rfl⟩)
    (fun _ e => ⟨Fair.of_work h.1, rfl⟩) (fun t e now touched p _ _ _ _ _ _ =>
      ⟨⟨?_, h.2⟩, rfl⟩) hfair
  · exact (Unasked.prompted (w := w.withEnv e) h req d rfl).2
  · exact (logs _).trans h.1 (logs_emits (w := PinManager.withManager (w.withEnv e) _) trivial)

theorem run_cmdMakeCredential_of_unasked (h : Unasked b w) (body : Bytes) :
    (cmdMakeCredential D body).Run w (fun _ => Granted b) (fun _ => Fair b) (Fair b) := by
  refine run_bind.mpr (run_bind.mpr (run_ofExcept.mpr ⟨fun q _ => ?_, fun _ _ => Fair.of_work h.1⟩))
  refine run_bind.mpr ((run_checkPinAuth_of_unasked h _ _ _ _ _ _ _).mono (fun uv w₁ h₁ => ?_)
    (fun _ _ hw => hw.1) fun _ hw => hw)
  refine run_bind.mpr (run_gets.mpr (run_bind.mpr ?_))
  refine (run_confirmUp_of_unasked h₁.1 _ _ _ _).weaken fun d w₂ h₂ => ?_
  refine run_bind.mpr (run_require.mpr ⟨fun _ => ?_, fun _ => h₂.2.1⟩)
  refine run_bind.mpr (run_require.mpr ⟨fun _ => ?_, fun _ => h₂.2.1⟩)
  refine run_bind.mpr (run_decision (fun hd => ?_) fun _ _ => h₂.2.1)
  refine run_bind.mpr (run_gets.mpr (run_bind.mpr (run_require.mpr ⟨fun _ => ?_, fun _ => h₂.2.1⟩)))
  exact ((h₂.1 hd).run ((workOps D).createCredential q uv)).mono (fun _ _ hw => hw)
    (fun _ _ hw => hw.fair) fun _ hw => hw.fair

theorem run_cmdReset_of_unasked (h : Unasked b w) :
    (cmdReset D).Run w (fun _ => Granted b) (fun _ => Fair b) (Fair b) := by
  refine run_bind.mpr ((run_confirmLocal_of_unasked h _).weaken fun _ w₁ h₁ => ?_)
  exact run_bind.mpr ((h₁.run (workOps D).resetApproved).mono (fun _ _ hw => hw)
    (fun _ _ hw => hw.fair) fun _ hw => hw.fair)

/-- The user is asked, or the request does not want user presence. -/
def AskedFor (q : GetAssertionRequest) (b w : World) : Prop :=
  (q.up = true → Granted b w) ∧ (q.up = false → (logs Event.Work).rel b w)

theorem AskedFor.work {q : GetAssertionRequest} {w' : World} (h : AskedFor q b w)
    (hw : (logs Event.Work).rel w w') : AskedFor q b w' :=
  ⟨fun hq => (h.1 hq).work hw, fun hq => (logs _).trans (h.2 hq) hw⟩

theorem AskedFor.fair {q : GetAssertionRequest} (h : AskedFor q b w) : Fair b w := by
  rcases hq : q.up with _ | _
  · exact Fair.of_work (h.2 hq)
  · exact (h.1 hq).fair

/-- getAssertion claims user presence, in its reply and in the list it leaves, only where the
user has allowed it. -/
theorem run_cmdGetAssertion_of_unasked (h : Unasked b w) (body : Bytes) :
    (cmdGetAssertion D body).Run w
      (fun r w' => ∃ cred rpIdHash flags bump, IsAssertion cred rpIdHash flags bump r ∧
        (∀ st, w'.next = some st → st.flags = flags) ∧ (flags &&& kFlagUp ≠ 0 → Granted b w') ∧
        (Granted b w' ∨ (logs Event.Work).rel b w'))
      (fun _ w' => Fair b w' ∧ w'.next = none) (Fair b) := by
  refine run_bind.mpr (run_modify.mpr ?_)
  have h₀ : Unasked b { w with next := none } := h
  refine run_bind.mpr (run_ofExcept.mpr ⟨fun q _ => ?_, fun _ _ => ⟨Fair.of_work h₀.1, rfl⟩⟩)
  refine run_bind.mpr (run_gets.mpr (run_bind.mpr ?_))
  refine (run_checkPinAuth_of_unasked h₀ _ _ _ _ _ _ _).weaken fun uv w₁ ⟨h₁, hnone₁⟩ => ?_
  dsimp only
  rcases sortCandidates _ with _ | ⟨first, rest⟩
  · exact ⟨Fair.of_work h₁.1, hnone₁⟩
  refine run_assertFirst_of_work (M := AskedFor q b) ?_ (fun w₂ r w' hM hwork his hflags => ?_)
    (fun w₂ _ w' hM hwork hnone => ⟨(hM.work hwork).fair, hnone⟩)
    fun w₂ w' hM hwork => (hM.work hwork).fair
  · refine run_ite.mpr ⟨fun hq => ?_, fun hq => ?_⟩
    · refine run_bind.mpr ((run_confirmUp_of_unasked h₁ _ _ _ _).weaken
        fun d w₂ ⟨hallow, hf, hn⟩ => ?_)
      refine run_decision (fun hd => ⟨hn.trans hnone₁, fun _ => hallow hd, fun hq' => ?_⟩)
        fun _ _ => ⟨hf, hn.trans hnone₁⟩
      rw [hq] at hq'
      cases hq'
    · exact ⟨hnone₁, fun hq' => absurd hq' hq, fun _ => h₁.1⟩
  · have hasked := hM.work hwork
    refine ⟨first, _, _, _, his, hflags, fun hup => hasked.1 ((assertionFlags_up _ _).mp hup), ?_⟩
    -- with `up` false nobody is asked, and only work is done
    rcases hq : q.up with _ | _
    · exact .inr (hasked.2 hq)
    · exact .inl (hasked.1 hq)

/-! ### U2F -/

theorem run_u2fRegister_of_unasked (h : Unasked b w) (data : Bytes) :
    (u2fRegister D data).Run w (fun _ => Granted b) (fun _ => Fair b) (Fair b) := by
  refine run_bind.mpr (run_require.mpr ⟨fun _ => ?_, fun _ => Fair.of_work h.1⟩)
  refine run_bind.mpr ((run_confirmUp_of_unasked h _ _ _ _).weaken fun d w₁ h₁ => ?_)
  refine run_bind.mpr (run_require.mpr ⟨fun hd => ?_, fun _ => h₁.2.1⟩)
  exact ((h₁.1 (of_decide_eq_true hd)).run (((workOps D).registerRow _ _).orFail _)).mono
    (fun _ _ hw => hw) (fun _ _ hw => hw.fair) fun _ hw => hw.fair

/-- The presence byte of a signature says whether the user was asked. -/
theorem signChallenge_presence (cred : Credential) (challenge application : Block 32)
    (enforce : Bool) : (signChallenge D cred challenge application enforce).Run w
      (fun r _ => ∃ count sig, r = .signed (if enforce then 0x01 else 0x00) count sig)
      (fun _ _ => True) fun _ => True := by
  refine run_signChallenge (fun _ _ => trivial) (fun h sig _ => ⟨_, sig, by rw [h]; rfl⟩)
    (fun h now e sig => ?_) fun _ => trivial
  exact Store.run_updateCountAndUsed trivial (fun _ _ _ => ⟨_, sig, by rw [h]; rfl⟩)
    (fun _ _ _ => trivial) fun _ _ _ => trivial

theorem run_u2fAuthenticate_of_unasked (h : Unasked b w) (p1 : UInt8) (data : Bytes) :
    (u2fAuthenticate D p1 data).Run w
      (fun r w' => Granted b w' ∨ (logs Event.Work).rel b w' ∧ ∃ count sig,
        r = .signed 0x00 count sig)
      (fun _ => Fair b) (Fair b) := by
  have hfair := Fair.of_work h.1
  refine run_bind.mpr (run_require.mpr ⟨fun _ => ?_, fun _ => hfair⟩)
  refine run_bind.mpr (run_require.mpr ⟨fun _ => ?_, fun _ => hfair⟩)
  refine run_bind.mpr (run_require.mpr ⟨fun _ => ?_, fun _ => hfair⟩)
  refine run_bind.mpr (run_gets.mpr ?_)
  dsimp only
  rcases w.store.find _ _ with _ | cred
  · exact hfair
  refine run_bind.mpr (run_require.mpr ⟨fun _ => ?_, fun _ => hfair⟩)
  have hsign := fun enforce =>
    ((logs_credNeutral (fun _ h => h) D).assertOps.signChallenge (D := D) cred
    (Block.ofPadded 32 (data.take 32)) (Block.ofPadded 32 ((data.drop 32).take 32)) enforce)
  refine run_ite.mpr ⟨fun hp => ?_, fun hp => ?_⟩
  · refine run_bind.mpr ((run_confirmUp_of_unasked h _ _ _ _).weaken fun d w₁ h₁ => ?_)
    refine run_bind.mpr (run_require.mpr ⟨fun hd => ?_, fun _ => h₁.2.1⟩)
    exact ((h₁.1 (of_decide_eq_true hd)).run ((hsign _).orFail _)).mono (fun _ _ hw => .inl hw)
      (fun _ _ hw => hw.fair) fun _ hw => hw.fair
  · refine run_orFail.mpr
      ((((hsign _).run w).and (signChallenge_presence cred _ _ _)).mono ?_ ?_ ?_)
    · rintro r w' ⟨hwork, count, sig, hr⟩
      refine .inr ⟨(logs _).trans h.1 hwork, count, sig, ?_⟩
      rw [hr, decide_eq_false hp]
      rfl
    · exact fun _ _ hw => Fair.of_work ((logs _).trans h.1 hw.1)
    · exact fun _ hw => Fair.of_work ((logs _).trans h.1 hw.1)

/-! ### Every call -/

/-- How a successful call got there: the user allowed it; or there was no prompt, and the
success claims no more than the pending list does. -/
def Earned (c : Call) (b : World) (a : Answer) (w : World) : Prop :=
  Granted b w ∨ (logs Event.Work).rel b w ∧ (Claims c a →
    (∃ rest, c = .cbor (0x08 :: rest)) ∧ ∃ st, b.next = some st ∧ st.flags &&& kFlagUp ≠ 0)

theorem Earned.fair {c : Call} {a : Answer} (h : Earned c b a w) : Fair b w :=
  h.elim Granted.fair fun h => Fair.of_work h.1

theorem run_finish_earned {ε α : Type} {c : Call} {m : Cmd ε α} {f : α → Answer} {r : ε → Refusal}
    (h : m.Run b (fun a w' => KeepsSecret (f a) ∧ Earned c b (f a) w') (fun _ => Fair b) (Fair b)) :
    (finish m f r).Run b (fun a w' => KeepsSecret a ∧ Earned c b a w') (fun _ => Fair b) (Fair b) :=
  run_finish (h.weaken fun _ w' hw _ => ⟨hw, Earned.fair (w := w') hw.2⟩)

/-- A call without a prompt that claims nothing. -/
theorem run_finish_of_work {ε α : Type} {c : Call} {m : Cmd ε α} {f : α → Answer} {r : ε → Refusal}
    (h : Guarantees (logs Event.Work) m) (hf : ∀ a, KeepsSecret (f a) ∧ ¬ Claims c (f a)) :
    (finish m f r).Run b (fun a w' => KeepsSecret a ∧ Earned c b a w') (fun _ => Fair b) (Fair b) :=
  run_finish_earned ((h.run b).mono
    (fun a _ hw => ⟨(hf a).1, .inr ⟨hw, fun hc => absurd hc (hf a).2⟩⟩)
      (fun _ _ hw => Fair.of_work hw)
    fun _ hw => Fair.of_work hw)

theorem run_handleU2f_earned (apdu : Bytes) : (handleU2f D apdu).Run b
    (fun r w' => KeepsSecret (.u2f r) ∧ Earned (.u2f apdu) b (.u2f r) w') (fun _ => Fair b)
    (Fair b) := by
  have hfair : Fair b b := Fair.of_work (logs_of_eq rfl)
  refine run_bind.mpr (run_require.mpr ⟨fun _ => ?_, fun _ => hfair⟩)
  rcases parseApdu apdu with _ | req
  · exact hfair
  refine run_bind.mpr (run_require.mpr ⟨fun _ => ?_, fun _ => hfair⟩)
  -- the version is told to anyone
  refine run_ite.mpr ⟨fun _ => ⟨trivial, .inr ⟨logs_of_eq rfl, False.elim⟩⟩, fun _ => ?_⟩
  refine run_ite.mpr ⟨fun _ => ?_, fun _ => run_ite.mpr ⟨fun _ => ?_, fun _ => hfair⟩⟩
  · exact (run_u2fRegister_of_unasked (.refl b) _).weaken fun _ _ hw => ⟨trivial, .inl hw⟩
  · refine (run_u2fAuthenticate_of_unasked (.refl b) _ _).weaken ?_
    rintro r w' (hw | ⟨hw, count, sig, rfl⟩)
    · exact ⟨trivial, .inl hw⟩
    · refine ⟨trivial, .inr ⟨hw, fun hc => ?_⟩⟩
      exact absurd (show (0x00 : UInt8) = 0x01 from hc) (by decide)

theorem run_handleCbor_earned (request : Bytes) : (handleCbor D request).Run b
    (fun r w' => KeepsSecret (.cbor r) ∧ Earned (.cbor request) b (.cbor r) w') (fun _ => Fair b)
    (Fair b) := by
  rcases request with _ | ⟨cmd, body⟩
  · exact Fair.of_work (logs_of_eq rfl)
  refine run_ite.mpr ⟨fun h8 => ?_, fun h8 => run_bind.mpr (run_modify.mpr ?_)⟩
  · subst h8
    refine (cmdGetNextAssertion_spec b).mono ?_ (fun _ _ hw => Fair.of_work hw.1)
      fun _ hw => Fair.of_work hw
    rintro r w' ⟨st, cred, hst, his, hwork, -⟩
    obtain ⟨_, _, _, _, _, rfl, hup, -, hext⟩ := his.flags
    exact ⟨fun he => hup.mpr (hext he), .inr ⟨hwork, fun hc => ⟨⟨body, rfl⟩, st, hst, hup.mp hc⟩⟩⟩
  have h₀ : Unasked b { b with next := none } := .refl b
  have hwork₀ : (logs Event.Work).rel b { b with next := none } := logs_of_eq rfl
  refine run_ite.mpr ⟨fun _ => ⟨trivial, .inr ⟨hwork₀, False.elim⟩⟩, fun _ => ?_⟩
  refine run_ite.mpr ⟨fun _ => ?_, fun _ => run_ite.mpr ⟨fun _ => ?_, fun _ => ?_⟩⟩
  · -- makeCredential
    refine ((run_cmdMakeCredential_of_unasked h₀ body).and (cmdMakeCredential_returns body _)).mono
      ?_ (fun _ _ hw => hw.1) fun _ hw => hw.1
    rintro r w' ⟨hw, authData, sig, rfl⟩
    exact ⟨trivial, .inl hw⟩
  · -- getAssertion
    refine (run_cmdGetAssertion_of_unasked h₀ body).mono ?_ (fun _ _ hw => hw.1) fun _ hw => hw
    rintro r w' ⟨cred, rpIdHash, flags, bump, his, -, hgranted, hcase⟩
    obtain ⟨_, _, _, _, _, rfl, hup, -, hext⟩ := his.flags
    refine ⟨fun he => hup.mpr (hext he), ?_⟩
    by_cases hf : flags &&& kFlagUp ≠ 0
    · exact .inl (hgranted hf)
    · exact hcase.elim .inl fun hw => .inr ⟨hw, fun hc => absurd (hup.mp hc) hf⟩
  refine run_ite.mpr ⟨fun _ => ?_, fun h7 => run_ite.mpr ⟨fun h6 => ?_, fun _ => ?_⟩⟩
  · -- reset
    refine run_bind.mpr ((run_confirmLocal_of_unasked h₀ _).weaken fun _ w₁ h₁ => run_bind.mpr ?_)
    exact (h₁.run (workOps D).resetApproved).mono (fun _ _ hw => ⟨trivial, .inl hw⟩)
      (fun _ _ hw => hw.fair) fun _ hw => hw.fair
  · -- clientPIN
    refine ((((workOps D).handle body).run _).and (PinManager.handle_returns body _)).mono ?_
      (fun _ _ hw => Fair.of_work ((logs _).trans hwork₀ hw.1))
      fun _ hw => Fair.of_work ((logs _).trans hwork₀ hw.1)
    rintro r w' ⟨hw, hr⟩
    have hwork := (logs _).trans hwork₀ hw
    subst h6
    cases r with
    | empty =>
      refine ⟨trivial, .inr ⟨hwork, ?_⟩⟩
      rintro ⟨cmd, rest, hc, h7 | hB⟩
      · rw [h7] at hc
        exact absurd (List.cons.inj (Call.cbor.inj hc)).1 (by decide)
      · rw [hB] at hc
        exact absurd (List.cons.inj (Call.cbor.inj hc)).1 (by decide)
    | retries n => exact ⟨trivial, .inr ⟨hwork, False.elim⟩⟩
    | keyAgreement pub => exact ⟨trivial, .inr ⟨hwork, False.elim⟩⟩
    | pinToken enc => exact ⟨trivial, .inr ⟨hwork, False.elim⟩⟩
    | _ => exact hr.elim
  · -- selection
    refine run_ite.mpr ⟨fun _ => ?_, fun _ => Fair.of_work hwork₀⟩
    exact run_bind.mpr ((run_confirmLocal_of_unasked h₀ _).weaken fun _ _ hw => ⟨trivial, .inl hw⟩)

theorem answer_earned (c : Call) : (answer D c).Run b (fun a w' => KeepsSecret a ∧ Earned c b a w')
    (fun _ => Fair b) (Fair b) := by
  -- the two local commands that ask are earned; the other three are only work
  cases c with
  | cbor request => exact run_finish_earned (run_handleCbor_earned request)
  | u2f apdu => exact run_finish_earned (run_handleU2f_earned apdu)
  | ctlReset =>
    exact run_finish_earned (run_bind.mpr ((run_cmdReset_of_unasked (.refl b)).weaken
      fun _ _ hw => ⟨trivial, .inl hw⟩))
  | ctlSetPin pin =>
    refine run_finish_earned (run_bind.mpr ((run_confirmLocal_of_unasked (.refl b) _).weaken ?_))
    exact fun _ w₁ h₁ => (h₁.run ((workOps D).setPinLocal pin)).mono
      (fun _ _ hw => ⟨trivial, .inl hw⟩) (fun _ _ hw => hw.fair) fun _ hw => hw.fair
  | ctlDelete credId =>
    exact run_finish_of_work ((workOps D).ctlDelete credId) fun _ => ⟨trivial, fun hc => by
      rcases hc with hc | ⟨_, hc⟩ <;> cases hc⟩
  | setSerial serial =>
    exact run_finish_of_work ((workOps D).setSerial serial) fun _ => ⟨trivial, fun hc => by
      rcases hc with hc | ⟨_, hc⟩ <;> cases hc⟩
  | tpmParams =>
    exact run_finish_of_work (workOps D).tpmStateOrCreate fun _ => ⟨trivial, fun hc => by
      rcases hc with hc | ⟨_, hc⟩ <;> cases hc⟩

end Commands

/-! ### Every run -/

/-- The list claims user presence only if the call that opened it was allowed. -/
def ListAllowed : World → Prop :=
  ListInv (fun flags => flags &&& kFlagUp ≠ 0) fun _ _ evs => Allowed evs

theorem ListAllowed.call {D : Device} {w : World} (h : ListAllowed w) (c : Call) (env : Env) :
    ListAllowed (w.call D c env) := by
  refine ListInv.call h fun body hc => ?_
  refine (run_cmdGetAssertion_of_unasked (.refl _) body).mono ?_ (fun _ _ hw => hw.2)
    fun _ _ => trivial
  rintro r w' ⟨cred, rpIdHash, flags, bump, -, hflags, hgranted, -⟩ st hst hup
  obtain ⟨evs, hlog, hinner, -, hallowed⟩ := hgranted (hflags st hst ▸ hup)
  exact ⟨evs, hlog, hinner, hallowed⟩

theorem Reached.consents {w w' : World} {c : Call} {e : Env} {last : Event}
    (h : Reached (fun evs => (Denied evs → Untouched (w.begin c e) w') ∧
      ∀ a, last = .answered c a → Claims c a → Allowed evs ∨
        (∃ rest, c = .cbor (0x08 :: rest)) ∧ OpenedBy (fun _ _ evs => Allowed evs) w.log)
      (w.begin c e) w')
    (hsecret : ∀ a, last = .answered c a → KeepsSecret a) :
    ∃ evs, Consented w c evs last (w'.emits [last]) := by
  obtain ⟨evs, hlog, hinner, hdenied, hallowed⟩ := h
  refine ⟨evs, ?_, hinner, hallowed, fun hd => ?_, hsecret⟩
  · simp [World.emits, hlog, World.begin]
  · exact ⟨(hdenied hd).2.2, fun _ => ⟨(hdenied hd).1, (hdenied hd).2.1⟩⟩

/-- **No user presence without consent.** In every state a fresh installation can reach, every
call, however the user answers, whatever fails and wherever the process dies, is as
`Consented` says. -/
theorem consented (D : Device) (env₀ : Env) (steps : List Step) (c : Call) (env : Env) :
    ∃ evs last, Consented ((World.fresh env₀).run D steps) c evs last
      (((World.fresh env₀).run D steps).call D c env) := by
  have hlist : ListAllowed ((World.fresh env₀).run D steps) :=
    World.run_induction (I := ListAllowed) (fun _ c e h => ListAllowed.call h c e)
      (fun _ _ _ => ListInv.restart _) steps
      fun st hst => by cases hst
  set w := (World.fresh env₀).run D steps
  refine World.call_of_run (P := fun w' => ∃ evs last, Consented w c evs last w')
    ((answer_earned c).mono ?_ ?_ ?_)
  · rintro a w' ⟨hsecret, hearned⟩
    refine exists_comm.mp ⟨.answered c a, Reached.consents (e := env) ?_ fun a' ha => ?_⟩
    · rcases hearned with hgranted | ⟨hwork, hclaims⟩
      · obtain ⟨evs, hlog, hinner, hno, hallowed⟩ := hgranted
        exact ⟨evs, hlog, hinner, fun hd => absurd hd hno, fun _ _ _ => .inl hallowed⟩
      · obtain ⟨evs, hlog, hwork⟩ := hwork
        refine ⟨evs, hlog, fun ev hev => (hwork ev hev).inner,
          fun hd => absurd hd (not_denied_of_work hwork), fun a' ha hc => .inr ?_⟩
        obtain ⟨hnext, st, hst, hup⟩ := hclaims ((Event.answered.inj ha).2 ▸ hc)
        exact ⟨hnext, hlist st hst hup⟩
    · exact (Event.answered.inj ha).2 ▸ hsecret
  · rintro r w' ⟨evs, hlog, hinner, hdenied⟩
    exact exists_comm.mp ⟨.refused c r, Reached.consents (e := env)
      ⟨evs, hlog, hinner, hdenied, fun _ ha => by cases ha⟩ fun _ ha => by cases ha⟩
  · rintro w' ⟨evs, hlog, hinner, hdenied⟩
    refine ⟨evs, .restarted, ?_, hinner, fun _ ha => (by cases ha), fun hd => ?_,
      fun _ ha => by cases ha⟩
    · simp [World.restart, hlog, World.begin]
    · exact ⟨(hdenied hd).2.2, fun hne => absurd rfl hne⟩

end Swpasskey
