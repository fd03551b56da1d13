import Mathlib.Data.List.TakeWhile
import Swpasskey.Ctap.PinFailure

/-!
# The two ways a PIN comes in

`set_pin_local` is handed the PIN itself, `set_pin` a block of 64 bytes that is filled up with
zeros, in which the PIN ends at the first zero byte. On a PIN without a zero byte the two agree.
A zero byte inside the PIN cuts it short for the one and not for the other.
-/

namespace Swpasskey

open Proc PinManager

/-- The 64 bytes in which a platform sends a PIN. -/
def padded (pin : Bytes) : Bytes := pin ++ List.replicate (64 - pin.length) 0

/-- The PIN up to its first zero byte. -/
def front (pin : Bytes) : Bytes := pin.takeWhile (· != 0)

theorem left_le_hash : 16 ≤ 32 := by decide

/-- `LEFT(SHA-256(pin), 16)`. -/
def leftHash (D : Device) (pin : Bytes) : Block 16 := (D.provider.sha256 pin).left 16 left_le_hash

/-- The encrypted block decrypts to the padded PIN. -/
structure CarriesPin (D : Device) (ss : SharedSecret) (enc pin : Bytes) : Prop where
  length_eq : enc.length = 80
  decrypts : D.provider.aes256cbcDecrypt ss.aesKey (Block.ofPadded 16 (enc.take 16))
    (enc.drop 16) = padded pin

/-- `set_pin_local` does not turn the PIN away. -/
def LocalAccepts (D : Device) (pin : Bytes) : Prop :=
  ∀ w w', setPinLocal D pin w ≠ (.err .pinPolicyViolation, w')

/-- `pin_from_padded` does not turn the block away. -/
def PaddedAccepts (D : Device) (ss : SharedSecret) (enc : Bytes) : Prop :=
  ∀ w w', pinFromPadded D ss enc w ≠ (.err .pinPolicyViolation, w')

/-- Whenever `set_pin_local` returns, this is the PIN state in the store. -/
def LocalStores (D : Device) (pin : Bytes) (st : PinState) : Prop :=
  ∀ w w', setPinLocal D pin w = (.ok (), w') → w'.store.pin = st

/-- Whenever the hash of the block is installed, by `set_pin` or otherwise, this is the PIN state in
the store. -/
structure PaddedStores (D : Device) (ss : SharedSecret) (enc : Bytes) (st : PinState) : Prop where
  installed : ∀ w w', (pinFromPadded D ss enc >>= install) w = (.ok (), w') → w'.store.pin = st
  set : ∀ key auth w w₁ w' reply, sharedSecretFor D key w = (.ok ss, w₁) →
    setPin D key enc auth w = (.ok reply, w') → w'.store.pin = st

/-- The two paths agree on the PIN: both accept it, and then store the same, or both turn it
away. -/
structure PathsAgree (D : Device) (ss : SharedSecret) (enc pin : Bytes) : Prop where
  accepts : LocalAccepts D pin ↔ PaddedAccepts D ss enc
  stores : LocalAccepts D pin → PaddedAccepts D ss enc →
    LocalStores D pin ⟨some (leftHash D pin), 8⟩ ∧
      PaddedStores D ss enc ⟨some (leftHash D pin), 8⟩

/-- The PIN has no zero byte; or it is too short up to there, and altogether too short or too long;
or it is long enough up to there, not too long altogether, and the two hashes happen to be the
same. -/
def ZeroHarmless (D : Device) (pin : Bytes) : Prop :=
  0 ∉ pin ∨ (codePoints (front pin) < 4 ∧ (codePoints pin < 4 ∨ pin.length = 64)) ∨
    4 ≤ codePoints (front pin) ∧ pin.length ≤ 63 ∧ leftHash D pin = leftHash D (front pin)

variable {D : Device} {ss : SharedSecret} {enc pin : Bytes} {w : World}

/-! ### Bytes -/

theorem codePoints_le_length (pin : Bytes) : codePoints pin ≤ pin.length :=
  List.length_filter_le _ _

theorem pinPolicy_eq_true : pinPolicy pin = true ↔ 4 ≤ codePoints pin ∧ pin.length ≤ 63 := by
  have hle := codePoints_le_length pin
  have hempty : pin.isEmpty = true → pin.length = 0 := by
    intro h
    rw [List.isEmpty_iff.mp h, List.length_nil]
  rw [pinPolicy]
  simp only [Bool.not_eq_true', Bool.or_eq_false_iff, decide_eq_false_iff_not,
    Bool.eq_false_iff (b := pin.isEmpty)]
  constructor
  · rintro ⟨⟨⟨-, hmin⟩, -⟩, hlen⟩
    omega
  · rintro ⟨hmin, hlen⟩
    exact ⟨⟨⟨fun h => by have := hempty h; omega, by omega⟩, by omega⟩, by omega⟩

theorem front_append_zero {l : Bytes} (h : 0 ∉ l) (r : Bytes) : front (l ++ 0 :: r) = l := by
  have hall : l.takeWhile (· != 0) = l :=
    List.takeWhile_eq_self_iff.mpr fun b hb => bne_iff_ne.mpr fun h0 => h (h0 ▸ hb)
  rw [front, List.takeWhile_append, hall, if_pos rfl]
  exact List.append_nil l

theorem front_of_notMem (h : 0 ∉ pin) : front pin = pin :=
  List.takeWhile_eq_self_iff.mpr fun _ hb => bne_iff_ne.mpr fun h0 => h (h0 ▸ hb)

/-- The padding is not part of the PIN, whether or not the PIN has a zero byte itself. -/
theorem front_padded (pin : Bytes) : front (padded pin) = front pin := by
  have hzeros : ∀ n, (List.replicate n (0 : UInt8)).takeWhile (· != 0) = [] := by
    intro n
    cases n <;> rfl
  rw [padded, front, front, List.takeWhile_append, hzeros, List.append_nil]
  split_ifs with hall
  · exact ((List.takeWhile_prefix _).eq_of_length hall).symm
  · rfl

/-- The zero byte counts as a code point. -/
theorem codePoints_front_lt (h : 0 ∈ pin) :
    codePoints (front pin) < codePoints pin ∧ (front pin).length < pin.length := by
  obtain ⟨l, r, rfl, hl⟩ := List.eq_append_cons_of_mem h
  rw [front_append_zero hl]
  constructor
  · have hzero : codePoints (0 :: r) = codePoints r + 1 := rfl
    have hsum : codePoints (l ++ 0 :: r) = codePoints l + codePoints (0 :: r) := by
      rw [codePoints, List.filter_append, List.length_append]
      rfl
    omega
  · rw [List.length_append, List.length_cons]
    omega

/-! ### What each path does -/

theorem hashPin_apply (D : Device) (pin : Bytes) (w : World) : hashPin D pin w =
    if pinPolicy pin then (.ok (leftHash D pin), w) else (.err .pinPolicyViolation, w) := by
  unfold hashPin
  rcases hp : pinPolicy pin with _ | _ <;> rfl

theorem install_ne_policy (hash : Block 16) (w w' : World) :
    install hash w ≠ (.err .pinPolicyViolation, w') := by
  intro h
  rcases eq_or_ne w.env.crash (some 0) with hcrash | hcrash
  · rw [install_died hash hcrash] at h
    cases h
  · rw [install_apply hash hcrash] at h
    split_ifs at h <;> cases h

/-- An installed PIN is the one in the store, with all retries. -/
theorem install_stores (hash : Block 16) (w : World) : (install hash).Run w
    (fun _ w' => w'.store.pin = ⟨some hash, 8⟩) (fun _ _ => True) fun _ => True := by
  refine run_onReturn.mpr fun _ w' h => ?_
  rcases eq_or_ne w.env.crash (some 0) with hcrash | hcrash
  · rw [install_died hash hcrash] at h
    cases h
  · rw [install_apply hash hcrash] at h
    split_ifs at h with hsave
    · rw [hsave] at h
      cases h
      rfl
    · cases h

theorem localAccepts_iff : LocalAccepts D pin ↔ pinPolicy pin = true := by
  constructor
  · intro h
    by_contra hpol
    exact h (.fresh (.calm 0)) _ (bind_apply_err (by rw [hashPin_apply, if_neg hpol]))
  · intro hpol w w' h
    rcases bind_apply_eq_err h with h | ⟨hash, w₁, -, h⟩
    · rw [hashPin_apply, if_pos hpol] at h
      cases h
    · rcases bind_apply_eq_err h with h | ⟨_, w₂, -, h⟩
      · exact install_ne_policy hash w₁ w' h
      · cases h

theorem localStores (D : Device) (pin : Bytes) : LocalStores D pin ⟨some (leftHash D pin), 8⟩ := by
  intro w w' h
  have hrun : (setPinLocal D pin).Run w (fun _ w' => w'.store.pin = ⟨some (leftHash D pin), 8⟩)
      (fun _ _ => True) fun _ => True := by
    refine Run.bind (R := fun hash _ => hash = leftHash D pin) ?_ ?_
    · refine run_onReturn.mpr fun hash w₁ hw₁ => ?_
      rw [hashPin_apply] at hw₁
      split_ifs at hw₁ <;> cases hw₁
      rfl
    · rintro hash w₁ rfl
      exact (install_stores _ w₁).bind fun _ w₂ hw₂ => hw₂
  exact hrun.ok h

/-- The decryption of a block that carries a PIN is up to the provider. -/
theorem pin2Decrypt_eq (hc : CarriesPin D ss enc pin) : pin2Decrypt D.provider ss enc =
    (askCrypto >>= fun ok => require ok .other >>= fun _ => pure (padded pin)) := by
  have hlen : (enc.drop 16).length = 64 := by rw [List.length_drop, hc.length_eq]
  unfold pin2Decrypt aes256cbcDecrypt
  rw [hc.length_eq, hlen, hc.decrypts]
  rfl

/-- What is in front of the first zero byte then meets the policy. -/
theorem pinFromPadded_eq (hc : CarriesPin D ss enc pin) : pinFromPadded D ss enc =
    (askCrypto >>= fun ok => require ok .pinAuthInvalid >>= fun _ => hashPin D (front pin)) := by
  have hlen : decide (64 ≤ (padded pin).length) = true := by
    rw [padded, List.length_append, List.length_replicate]
    exact decide_eq_true (by omega)
  have hne : ∀ w r t, (askCrypto : Cmd Status Bool) w ≠ (.err r, t) := by
    intro w r t h
    rcases eq_or_ne w.env.crash (some 0) with hcrash | hcrash
    · rw [askCrypto, ask_died _ hcrash] at h
      cases h
    · rw [askCrypto, ask_apply _ hcrash] at h
      cases h
  have hstep : ∀ ok : Bool, ((require ok .other >>= fun _ => pure (padded pin) :
      Cmd Status Bytes).orFail .pinAuthInvalid >>= fun padded => do
        require (64 ≤ padded.length) .pinPolicyViolation
        hashPin D (padded.takeWhile (· != 0))) =
      (require ok .pinAuthInvalid >>= fun _ => hashPin D (front pin)) := by
    intro ok
    cases ok
    · rfl
    · rw [← front_padded pin]
      change (require (decide (64 ≤ (padded pin).length)) .pinPolicyViolation >>= fun _ =>
        hashPin D (front (padded pin))) = _
      rw [hlen]
      rfl
  unfold pinFromPadded
  rw [pin2Decrypt_eq hc]
  funext w
  rw [bind_apply, orFail_bind_apply (hne w), ← bind_apply, bind_assoc]
  exact congrArg (fun k => (askCrypto >>= k) w) (funext hstep)

/-- Either way the PIN in front of the zero byte is hashed, or the call fails for another reason. -/
theorem run_pinFromPadded (hc : CarriesPin D ss enc pin) (w : World) :
    (pinFromPadded D ss enc).Run w (fun hash _ => hash = leftHash D (front pin))
      (fun r _ => r = .pinPolicyViolation → pinPolicy (front pin) = false) fun _ => True := by
  rw [pinFromPadded_eq hc]
  refine run_bind.mpr (run_ask (fun ok e => run_bind.mpr (run_require.mpr ⟨fun _ => ?_, ?_⟩))
    fun _ => trivial)
  · rw [Run, hashPin_apply]
    rcases hpol : pinPolicy (front pin) with _ | _
    · exact fun _ => rfl
    · rfl
  · rintro - ⟨⟩

/-- Where nothing goes wrong outside, only the policy counts. -/
theorem pinFromPadded_calm (hc : CarriesPin D ss enc pin) : ∃ w', w'.env.crash = none ∧
    w'.env.save.head = true ∧
      pinFromPadded D ss enc (.fresh (.calm 0)) = hashPin D (front pin) w' := by
  have hask : (askCrypto : Cmd Status Bool) (.fresh (.calm 0)) = (.ok true, _) :=
    ask_apply _ (by decide)
  rw [pinFromPadded_eq hc]
  exact ⟨_, rfl, rfl, bind_apply_ok hask⟩

theorem paddedAccepts_iff (hc : CarriesPin D ss enc pin) :
    PaddedAccepts D ss enc ↔ pinPolicy (front pin) = true := by
  constructor
  · intro h
    by_contra hpol
    obtain ⟨w', -, -, heq⟩ := pinFromPadded_calm hc
    rw [hashPin_apply, if_neg hpol] at heq
    exact h _ _ heq
  · intro hpol w w' h
    have hfalse := (run_pinFromPadded hc w).err h rfl
    rw [hpol] at hfalse
    cases hfalse

/-- `set_pin` hashes the block under its own shared secret. -/
theorem run_setPinChecks (hc : CarriesPin D ss enc pin) {key : P256PublicKey} {auth : Bytes}
    {w₁ : World} (hss : sharedSecretFor D key w = (.ok ss, w₁)) :
    (setPinChecks D key enc auth).Run w (fun hash _ => hash = leftHash D (front pin))
      (fun _ _ => True) fun _ => True := by
  have hss' : (sharedSecretFor D key).Run w (fun ss' _ => ss' = ss) (fun _ _ => True)
      fun _ => True := by
    refine run_onReturn.mpr fun ss' w' h => ?_
    rw [hss] at h
    cases h
    rfl
  refine run_bind.mpr (run_gets.mpr (run_bind.mpr
    (run_require.mpr ⟨fun _ => ?_, fun _ => trivial⟩)))
  refine hss'.bind fun ss' w₂ hw₂ => ?_
  subst hw₂
  refine run_bind.mpr (run_onReturn.mpr fun mac w₃ _ => ?_)
  refine run_bind.mpr (run_require.mpr ⟨fun _ => ?_, fun _ => trivial⟩)
  exact (run_pinFromPadded hc w₃).onReturn fun _ _ => id

theorem paddedStores (hc : CarriesPin D ss enc pin) :
    PaddedStores D ss enc ⟨some (leftHash D (front pin)), 8⟩ := by
  constructor
  · intro w w' h
    have hrun : (pinFromPadded D ss enc >>= install).Run w
        (fun _ w' => w'.store.pin = ⟨some (leftHash D (front pin)), 8⟩)
        (fun _ _ => True) fun _ => True := by
      refine ((run_pinFromPadded hc w).onReturn fun _ _ => id).bind fun hash w₁ hw₁ => ?_
      subst hw₁
      exact install_stores _ w₁
    exact hrun.ok h
  · intro key auth w w₁ w' reply hss h
    have hrun : (setPin D key enc auth).Run w
        (fun _ w' => w'.store.pin = ⟨some (leftHash D (front pin)), 8⟩)
        (fun _ _ => True) fun _ => True := by
      refine (run_setPinChecks hc hss).bind fun hash w₁ hw₁ => ?_
      subst hw₁
      exact (install_stores _ w₁).bind fun _ w₂ hw₂ => hw₂
    exact hrun.ok h

/-! ### Agreement -/

/-- On a PIN of 64 bytes at most, the condition says how the policy and the hashes compare. -/
theorem zeroHarmless_iff (hlen : pin.length ≤ 64) : ZeroHarmless D pin ↔
    (pinPolicy pin = true ↔ pinPolicy (front pin) = true) ∧
      (pinPolicy pin = true → leftHash D pin = leftHash D (front pin)) := by
  by_cases h0 : 0 ∈ pin
  · obtain ⟨hcps, hshort⟩ := codePoints_front_lt h0
    rw [ZeroHarmless, pinPolicy_eq_true, pinPolicy_eq_true]
    constructor
    · rintro (h | ⟨hfront, hpin⟩ | ⟨hfront, hpin, hsame⟩)
      · exact absurd h0 h
      · exact ⟨by omega, fun h => by omega⟩
      · exact ⟨by omega, fun _ => hsame⟩
    · rintro ⟨hiff, hsame⟩
      by_cases hfront : codePoints (front pin) < 4
      · exact .inr (.inl ⟨hfront, by omega⟩)
      · have hpol : 4 ≤ codePoints pin ∧ pin.length ≤ 63 := hiff.mpr (by omega)
        exact .inr (.inr ⟨by omega, hpol.2, hsame hpol⟩)
  · rw [front_of_notMem h0]
    exact iff_of_true (.inl h0) ⟨Iff.rfl, fun _ => rfl⟩

/-- **The two ways a PIN comes in.** For a PIN of at most 64 bytes, `set_pin_local` and
`pin_from_padded` agree, in what they accept and in what is then stored, if and only if no zero byte
in it makes a difference. -/
theorem pathsAgree_iff (hlen : pin.length ≤ 64) (hc : CarriesPin D ss enc pin) :
    PathsAgree D ss enc pin ↔ ZeroHarmless D pin := by
  rw [zeroHarmless_iff hlen]
  constructor
  · rintro ⟨haccepts, hstores⟩
    rw [localAccepts_iff, paddedAccepts_iff hc] at haccepts
    refine ⟨haccepts, fun hpol => ?_⟩
    have hfront := haccepts.mp hpol
    obtain ⟨-, hpadded⟩ := hstores (localAccepts_iff.mpr hpol) ((paddedAccepts_iff hc).mpr hfront)
    -- a run in which nothing goes wrong stores the hash of the front
    obtain ⟨w', hcrash, hsave, heq⟩ := pinFromPadded_calm hc
    rw [hashPin_apply, if_pos hfront] at heq
    have hinst := install_apply (w := w') (leftHash D (front pin)) (by rw [hcrash]; exact nofun)
    rw [hsave, if_pos rfl] at hinst
    have hrun := (bind_apply_ok heq).trans hinst
    have hhash := congrArg PinState.hash
      ((hpadded.installed _ _ hrun).symm.trans ((paddedStores hc).installed _ _ hrun))
    exact Option.some.inj hhash
  · rintro ⟨hpol, hsame⟩
    refine ⟨by rw [localAccepts_iff, paddedAccepts_iff hc, hpol], fun hlocal _ => ?_⟩
    refine ⟨localStores D pin, ?_⟩
    rw [hsame (localAccepts_iff.mp hlocal)]
    exact paddedStores hc

/-- A shared secret of zeros. -/
def zeroSecret : SharedSecret := ⟨Block.replicate 32 0, Block.replicate 32 0⟩

/-- The block that carries a PIN when encryption does nothing. -/
def plainBlock (pin : Bytes) : Bytes := List.replicate 16 0 ++ padded pin

theorem pathsAgree_iff_1234 :
    PathsAgree Device.plain zeroSecret (plainBlock (ascii "1234")) (ascii "1234") ↔
      ZeroHarmless Device.plain (ascii "1234") :=
  pathsAgree_iff (by decide) ⟨by decide, by decide⟩

/-- A PIN of five bytes whose fourth byte is zero: three code points for the one path, five for the
other. -/
theorem not_pathsAgree_zero : ([0x61, 0x62, 0x63, 0x00, 0x64] : Bytes).length ≤ 64 ∧
    CarriesPin Device.plain zeroSecret (plainBlock [0x61, 0x62, 0x63, 0x00, 0x64])
      [0x61, 0x62, 0x63, 0x00, 0x64] ∧
    ¬ PathsAgree Device.plain zeroSecret (plainBlock [0x61, 0x62, 0x63, 0x00, 0x64])
      [0x61, 0x62, 0x63, 0x00, 0x64] := by
  have hc : CarriesPin Device.plain zeroSecret (plainBlock [0x61, 0x62, 0x63, 0x00, 0x64])
      [0x61, 0x62, 0x63, 0x00, 0x64] := ⟨by decide, by decide⟩
  refine ⟨by decide, hc, fun h => ?_⟩
  have haccepts := h.accepts
  rw [localAccepts_iff, paddedAccepts_iff hc] at haccepts
  exact absurd (haccepts.mp (by decide)) (by decide)

end Swpasskey
