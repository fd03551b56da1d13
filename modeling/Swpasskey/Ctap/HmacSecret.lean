import Swpasskey.Ctap.Conversation
import Swpasskey.Ctap.Lineage

/-!
# hmac-secret over the life of a credential

The credRandom of a credential is generated once, by makeCredential or a U2F registration,
wrapped by the primary backend and stored in the row. From there it goes through the file
and restarts, or through the pending list, to the assertions; each of these unwraps it,
selects a half by the UV flag of the response, and encrypts the HMACs of the platform's
salts under the secret of the session. What the platform decrypts is therefore a function
of the credential, the UV flag and the salts alone.
-/

namespace Swpasskey

open Proc Cbor

variable {D : Device}

/-! ### What the platform computes -/

section Platform

variable (P : Provider)

/-- `derive_shared_secret`, when nothing fails. -/
def Provider.derived (z : Block 32) : SharedSecret where
  hmacKey := P.hkdfSha256 z.bytes (List.replicate 32 0) (ascii "CTAP2 HMAC key")
  aesKey := P.hkdfSha256 z.bytes (List.replicate 32 0) (ascii "CTAP2 AES key")

/-- The secret that the holder of a key-agreement key shares with the holder of the public
key `key`. -/
def Provider.sharedWith (ka : Option EcdhKey) (key : P256PublicKey) : Option SharedSecret :=
  ka.bind fun ka => (P.sharedSecretX ka key).map P.derived

/-- `pin2_encrypt` under a given IV, when nothing fails. -/
def SharedSecret.encrypt (ss : SharedSecret) (iv : Block 16) (pt : Bytes) : Bytes :=
  iv.bytes ++ P.aes256cbcEncrypt ss.aesKey iv pt

/-- `pin2_decrypt`, when nothing fails. -/
def SharedSecret.decrypt (ss : SharedSecret) (ct : Bytes) : Bytes :=
  P.aes256cbcDecrypt ss.aesKey (Block.ofPadded 16 (ct.take 16)) (ct.drop 16)

/-- The HMACs of the salts, one after the other. -/
def Provider.hmacs (key : Bytes) (salts : List (Block 32)) : Bytes :=
  salts.flatMap fun salt => (P.hmacSha256 key salt.bytes).bytes

/-- AES-CBC decryption inverts encryption. -/
def Provider.AesInverts : Prop := ∀ key iv pt, pt.length % 16 = 0 →
  P.aes256cbcDecrypt key iv (P.aes256cbcEncrypt key iv pt) = pt

end Platform

/-- CredRandomWithUV, the first half, or CredRandomWithoutUV, the last. -/
def credRandomHalf (cr : Bytes) (uv : Bool) : Bytes := (cr.drop (if uv then 0 else 32)).take 32

/-- The extension map with an hmac-secret output. -/
def hmacSecretMap (out : Bytes) : Bytes :=
  encodeMap [(encodeTstr (ascii "hmac-secret"), encodeBstr out)]

theorem ofPadded_bytes {n : ℕ} (b : Block n) : Block.ofPadded n b.bytes = b := by
  apply Block.ext
  rw [Block.bytes_ofPadded b.length_bytes.le, b.length_bytes, Nat.sub_self, List.replicate_zero,
    List.append_nil]

theorem SharedSecret.decrypt_encrypt {P : Provider} (haes : P.AesInverts) (ss : SharedSecret)
    (iv : Block 16) {pt : Bytes} (hpt : pt.length % 16 = 0) :
    ss.decrypt P (ss.encrypt P iv pt) = pt := by
  have hiv : iv.bytes.length = 16 := iv.length_bytes
  rw [SharedSecret.decrypt, SharedSecret.encrypt, List.take_left' hiv, List.drop_left' hiv,
    ofPadded_bytes, haes _ _ _ hpt]

theorem Provider.length_hmacs (P : Provider) (key : Bytes) (salts : List (Block 32)) :
    (P.hmacs key salts).length = 32 * salts.length := by
  induction salts with
  | nil => rfl
  | cons salt salts ih =>
    rw [hmacs, List.flatMap_cons, List.length_append, Block.length_bytes, List.length_cons, mul_add]
    rw [hmacs] at ih
    omega

/-- The salts in a plaintext of 32 or 64 bytes. -/
theorem exists_salts {pt : Bytes} (h : pt.length = 32 ∨ pt.length = 64) :
    ∃ salts : List (Block 32), (salts.length = 1 ∨ salts.length = 2) ∧
      pt = salts.flatMap Block.bytes ∧
      (if pt.length = 32 then [pt] else [pt.take 32, pt.drop 32]) = salts.map Block.bytes := by
  rcases h with h | h
  · exact ⟨[⟨pt, h⟩], .inl rfl, (List.append_nil pt).symm, if_pos h⟩
  · refine ⟨[⟨pt.take 32, by simp [h]⟩, ⟨pt.drop 32, by simp [h]⟩], .inr rfl, ?_, ?_⟩
    · change pt = pt.take 32 ++ (pt.drop 32 ++ [])
      rw [List.append_nil, List.take_append_drop]
    · rw [if_neg (by omega)]
      rfl

theorem length_flatMap_bytes (salts : List (Block 32)) :
    (salts.flatMap Block.bytes).length % 16 = 0 := by
  induction salts with
  | nil => rfl
  | cons salt salts ih =>
    rw [List.flatMap_cons, List.length_append, Block.length_bytes]
    omega

/-- Blocks laid out one after the other are read back. -/
theorem flatMap_bytes_inj {n : ℕ} (hn : 0 < n) :
    ∀ {l l' : List (Block n)}, l.flatMap Block.bytes = l'.flatMap Block.bytes → l = l'
  | [], [], _ => rfl
  | [], b :: l', h => by
    have hlen := congrArg List.length h
    simp at hlen
    omega
  | b :: l, [], h => by
    have hlen := congrArg List.length h
    simp at hlen
    omega
  | b :: l, b' :: l', h => by
    rw [List.flatMap_cons, List.flatMap_cons] at h
    obtain ⟨hb, hl⟩ := List.append_inj h (b.length_bytes.trans b'.length_bytes.symm)
    rw [Block.ext hb, flatMap_bytes_inj hn hl]

/-! ### What the authenticator computes -/

section Output

variable {w : World}

theorem hkdfSha256_returns (P : Provider) (ikm salt info : Bytes) :
    Returns (hkdfSha256 P ikm salt info) fun k => k = P.hkdfSha256 ikm salt info :=
  Returns.bind_right fun _ => Returns.bind_right fun _ => Returns.pure rfl

theorem hmacSha256_returns (P : Provider) (key msg : Bytes) :
    Returns (hmacSha256 P key msg) fun h => h = P.hmacSha256 key msg :=
  Returns.bind_right fun _ => Returns.bind_right fun _ => Returns.pure rfl

theorem deriveSharedSecret_returns (P : Provider) (z : Block 32) :
    Returns (deriveSharedSecret P z) fun ss => ss = P.derived z := by
  refine (hkdfSha256_returns P _ _ _).attempt.bind fun h hh => ?_
  refine (hkdfSha256_returns P _ _ _).attempt.bind fun a ha => ?_
  rcases h with _ | h
  · exact Returns.throw _
  rcases a with _ | a
  · exact Returns.throw _
  · refine Returns.pure ?_
    rw [hh h rfl, ha a rfl]
    rfl

theorem pin2Decrypt_returns (P : Provider) (ss : SharedSecret) (ct : Bytes) :
    Returns (pin2Decrypt P ss ct) fun pt => pt = ss.decrypt P ct :=
  Returns.bind_right fun _ => Returns.bind_right fun _ => Returns.bind_right fun _ =>
    Returns.bind_right fun _ => Returns.pure rfl

theorem pin2Encrypt_returns (P : Provider) (ss : SharedSecret) (pt : Bytes) :
    Returns (pin2Encrypt P ss pt) fun ct => ∃ iv, ct = ss.encrypt P iv pt := by
  refine Returns.bind_right fun iv => ?_
  refine Returns.bind (P := fun ct => ct = P.aes256cbcEncrypt ss.aesKey iv pt) ?_ fun ct hct =>
    Returns.pure ⟨iv, by rw [hct]; rfl⟩
  exact Returns.bind_right fun _ => Returns.bind_right fun _ => Returns.bind_right fun _ =>
    Returns.pure rfl

theorem hmacSalts_returns (sel : Bytes) : ∀ salts : List (Block 32),
    Returns (hmacSalts D sel (salts.map Block.bytes)) fun out => out = D.provider.hmacs sel salts
  | [] => Returns.pure rfl
  | salt :: salts => by
    refine (hmacSha256_returns _ _ _).bind fun h hh => ?_
    refine (hmacSalts_returns sel salts).bind fun out hout => Returns.pure ?_
    rw [hh, hout]
    rfl

/-- The secret of a session comes from the current key agreement. -/
theorem run_sharedSecretFor (key : P256PublicKey) :
    (PinManager.sharedSecretFor D key).Run w
      (fun ss _ => D.provider.sharedWith w.pin.ka key = some ss) (fun _ _ => True)
      fun _ => True := by
  refine run_bind.mpr (run_gets.mpr ?_)
  rcases hka : w.pin.ka with _ | ka
  · trivial
  dsimp only
  rcases hz : D.provider.sharedSecretX ka key with _ | z
  · trivial
  refine (deriveSharedSecret_returns _ z w).weaken fun ss _ hss => ?_
  rw [hss, Provider.sharedWith, Option.bind_some, hz]
  rfl

/-- The answers of the backend to the request to unwrap the row's credRandom. -/
def Unwraps (e : Env) (cred : Credential) (cr : Bytes) : Prop :=
  cred.backend = .software ∧ cr = cred.credRandom ∨ ∃ i, e.unwrap.get i cred.credRandom = some cr

/-- What an environment answers later, it answers. -/
theorem Unwraps.of_later {e e' : Env} {cred : Credential} {cr : Bytes} (h : Unwraps e' cred cr)
    (hlater : e.Later e') : Unwraps e cred cr := by
  rcases h with hsoft | ⟨i, hi⟩
  · exact .inl hsoft
  · obtain ⟨k, hk⟩ := hlater.unwrap
    rw [hk, Stream'.get_drop] at hi
    exact .inr ⟨_, hi⟩

theorem run_unwrapSecret (cred : Credential) :
    (unwrapSecret cred.backend cred.credRandom).Run w (fun cr _ => Unwraps w.env cred cr)
      (fun _ _ => True) fun _ => True := by
  refine run_ite.mpr ⟨fun hs => .inl ⟨hs, rfl⟩, fun _ => run_bind.mpr ?_⟩
  refine run_ask_head (fun e => ?_) fun _ => trivial
  dsimp only
  rcases hcr : w.env.ticked.unwrap.head cred.credRandom with _ | cr
  · trivial
  · exact .inr ⟨0, hcr⟩

/-- `out` is the hmac-secret output for the row `cred`, in a session with the key agreement
`ka`: the salts are those in the request, the HMACs are under a half of what the row's
credRandom is unwrapped to. -/
def HmacOutput (D : Device) (ka : Option EcdhKey) (e : Env) (cred : Credential)
    (ext : ExtensionsIn) (uv : Bool) (out : Bytes) : Prop :=
  ∃ key ss salts cr iv, ext.hmacKeyAgreement = some key ∧
    D.provider.sharedWith ka key = some ss ∧ (salts.length = 1 ∨ salts.length = 2) ∧
    ss.decrypt D.provider ext.hmacSaltEnc = salts.flatMap Block.bytes ∧ Unwraps e cred cr ∧
    out = ss.encrypt D.provider iv (D.provider.hmacs (credRandomHalf cr uv) salts)

theorem HmacOutput.of_later {ka : Option EcdhKey} {e e' : Env} {cred : Credential}
    {ext : ExtensionsIn} {uv : Bool} {out : Bytes} (h : HmacOutput D ka e' cred ext uv out)
    (hlater : e.Later e') : HmacOutput D ka e cred ext uv out := by
  obtain ⟨key, ss, salts, cr, iv, hkey, hss, hsalts, hdec, hcr, hout⟩ := h
  exact ⟨key, ss, salts, cr, iv, hkey, hss, hsalts, hdec, hcr.of_later hlater, hout⟩

/-- **What `hmac_secret_output` returns.** -/
theorem run_hmacSecretOutput (cred : Credential) (ext : ExtensionsIn) (uv : Bool) :
    (hmacSecretOutput D cred ext uv).Run w
      (fun out _ => HmacOutput D w.pin.ka w.env cred ext uv out) (fun _ _ => True)
      fun _ => True := by
  -- a quiet part leaves everything but some answers, and returns what it does
  have hpart : ∀ {α : Type} {m : Cmd Status α} {P : α → Prop} {r : Status} {w' : World},
      Quiet m → m.Run w' (fun a _ => P a) (fun _ _ => True) (fun _ => True) →
      w.env.Later w'.env → w'.pin = w.pin → (m.orFail r).Run w' (fun a w'' => P a ∧
        w.env.Later w''.env ∧ w''.pin = w.pin) (fun _ _ => True) fun _ => True := by
    intro α m P r w' hquiet hreturns hlater hpin
    refine run_orFail.mpr (((hquiet.run w').and hreturns).onReturn ?_)
    rintro a w'' ⟨⟨e, he, rfl⟩, ha⟩
    exact ⟨ha, hlater.trans he, hpin⟩
  unfold hmacSecretOutput
  rcases hkey : ext.hmacKeyAgreement with _ | key
  · trivial
  refine run_bind.mpr (run_require.mpr ⟨fun _ => ?_, fun _ => trivial⟩)
  refine run_bind.mpr (run_require.mpr ⟨fun _ => ?_, fun _ => trivial⟩)
  refine run_bind.mpr ((hpart (PinManager.quiet_sharedSecretFor key) (run_sharedSecretFor key)
    (.refl _) rfl).weaken ?_)
  rintro ss w₁ ⟨hss, hlater₁, hpin₁⟩
  refine run_bind.mpr ((hpart (quiet_hmacSha256 _ _) (P := fun _ => True)
    ((hmacSha256_returns _ _ _ w₁).weaken fun _ _ _ => trivial) hlater₁ hpin₁).weaken ?_)
  rintro mac w₂ ⟨-, hlater₂, hpin₂⟩
  refine run_bind.mpr (run_require.mpr ⟨fun _ => ?_, fun _ => trivial⟩)
  refine run_bind.mpr ((hpart (quiet_pin2Decrypt _ _) (pin2Decrypt_returns _ ss _ w₂) hlater₂
    hpin₂).weaken ?_)
  rintro pt w₃ ⟨rfl, hlater₃, hpin₃⟩
  refine run_bind.mpr (run_require.mpr ⟨fun hlen => ?_, fun _ => trivial⟩)
  simp only [Bool.or_eq_true, decide_eq_true_eq] at hlen
  obtain ⟨salts, hsalts, hdec, hchunks⟩ := exists_salts hlen
  refine run_bind.mpr (run_require.mpr ⟨fun _ => ?_, fun _ => trivial⟩)
  refine run_bind.mpr (run_require.mpr ⟨fun _ => ?_, fun _ => trivial⟩)
  refine run_bind.mpr ((hpart (quiet_unwrapSecret _ _) (run_unwrapSecret cred) hlater₃
    hpin₃).weaken ?_)
  rintro cr w₄ ⟨hcr, hlater₄, hpin₄⟩
  refine run_bind.mpr (run_require.mpr ⟨fun _ => ?_, fun _ => trivial⟩)
  dsimp only
  rw [hchunks]
  refine run_bind.mpr ((hpart (quiet_hmacSalts _ _) (hmacSalts_returns _ salts w₄) hlater₄
    hpin₄).weaken ?_)
  rintro out w₅ ⟨rfl, hlater₅, hpin₅⟩
  refine (hpart (quiet_pin2Encrypt _ _) (pin2Encrypt_returns _ ss _ w₅) hlater₅ hpin₅).weaken ?_
  rintro ct w₆ ⟨⟨iv, rfl⟩, -, -⟩
  exact ⟨key, ss, salts, cr, iv, hkey, hss, hsalts, hdec, hcr.of_later hlater₃, rfl⟩

/-- The reply is an assertion for the row `cred`, and its extension output, if any, is the
hmac-secret output for that row. -/
def Carries (D : Device) (ka : Option EcdhKey) (e : Env) (cred : Credential) (ext : ExtensionsIn)
    (r : Reply) : Prop :=
  ∃ authData sig user number, r = .assertion cred.credId authData sig user number ∧
    (authData.extensions ≠ [] → ∃ out, authData.extensions = hmacSecretMap out ∧
      HmacOutput D ka e cred ext (decide authData.uv) out)

theorem Carries.of_later {ka : Option EcdhKey} {e e' : Env} {cred : Credential}
    {ext : ExtensionsIn} {r : Reply} (h : Carries D ka e' cred ext r) (hlater : e.Later e') :
    Carries D ka e cred ext r := by
  obtain ⟨authData, sig, user, number, rfl, hout⟩ := h
  refine ⟨authData, sig, user, number, rfl, fun hne => ?_⟩
  obtain ⟨out, hmap, hout⟩ := hout hne
  exact ⟨out, hmap, hout.of_later hlater⟩

theorem run_assertionExtensions_hmac (cred : Credential) (flags : UInt8) (ext : ExtensionsIn) :
    (assertionExtensions D cred flags ext).Run w
      (fun l _ => l ≠ [] → ∃ out, l = hmacSecretMap out ∧
        HmacOutput D w.pin.ka w.env cred ext (flags &&& kFlagUv ≠ 0) out)
      (fun _ _ => True) fun _ => True := by
  refine run_ite.mpr ⟨fun _ => ?_, fun _ h => absurd rfl h⟩
  exact run_bind.mpr ((run_hmacSecretOutput cred ext _).weaken fun out _ hout _ => ⟨out, rfl, hout⟩)

/-- **What an assertion carries.** -/
theorem buildAssertion_carries (cred : Credential) (rpIdHash clientDataHash : Block 32)
    (flags : UInt8) (bump : Bool) (ext : ExtensionsIn) (number : Option ℕ) :
    (buildAssertion D cred rpIdHash clientDataHash flags bump ext number).Run w
      (fun r _ => Carries D w.pin.ka w.env cred ext r) (fun _ _ => True) fun _ => True := by
  refine run_bind.mpr (((quiet_loadKey cred).run w).onReturn ?_)
  rintro key _ ⟨e, he, rfl⟩
  refine run_bind.mpr ((run_assertionExtensions_hmac cred flags ext).weaken fun l w₁ hl => ?_)
  set a : AuthData := {
    rpIdHash
    flags := flags ||| (if l.isEmpty then 0 else kFlagEd)
    signCount := assertionCount cred bump
    attested := none
    extensions := l }
  -- ED does not change UV
  have huv : a.uv ↔ flags &&& kFlagUv ≠ 0 := by
    change (flags ||| (if l.isEmpty then 0 else kFlagEd)) &&& kFlagUv ≠ 0 ↔ _
    rw [or_kFlagEd_and _ _ (by decide)]
  have hcarries : ∀ sig, Carries D w.pin.ka w.env cred ext
      (.assertion cred.credId a sig ⟨cred.userId, cred.userName, cred.userDisplay⟩ number) := by
    intro sig
    refine ⟨_, _, _, _, rfl, fun hne => ?_⟩
    obtain ⟨out, hmap, hout⟩ := hl hne
    rw [decide_eq_decide.mpr huv]
    exact ⟨out, hmap, hout.of_later he⟩
  refine run_bind.mpr (run_onReturn.mpr fun sig w₂ _ => ?_)
  refine run_ite.mpr ⟨fun _ => ?_, fun _ => hcarries sig⟩
  refine run_bind.mpr (run_onReturn.mpr fun now w₃ _ => ?_)
  exact run_bind.mpr (run_onReturn.mpr fun _ _ _ => hcarries sig)

end Output

/-! ### The session of a list

A getNextAssertion answers the request of the getAssertion that opened its list, and the key
agreement is still the one of that time: every command that makes a new one has dropped the
list before. -/

section Session

variable {w b : World}

/-- The frame of what keeps the key agreement. -/
def kaKept : Frame World := Frame.keeps fun w => w.pin.ka

theorem kaKept_credNeutral (D : Device) : CredNeutral D kaKept where
  env _ _ := rfl
  store _ _ _ := rfl
  dropNext _ := rfl
  flushed w m e ok := by cases ok <;> rfl
  event _ _ _ := rfl
  verify _ _ _ _ _ := Guarantees.of_run fun _ => PinManager.run_verify (fun _ _ => rfl)
    (fun _ _ => rfl) (fun _ _ _ _ _ _ _ _ _ => rfl) fun _ => rfl

theorem kaKept_listOps (D : Device) : ListOps D kaKept where
  env _ _ := rfl
  prompted _ _ _ := rfl
  verify := (kaKept_credNeutral D).verify
  updateCountAndUsed := (kaKept_credNeutral D).updateCountAndUsed
  next _ _ := rfl

theorem kaKept_setPinLocal (pin : Bytes) : Guarantees kaKept (PinManager.setPinLocal D pin) := by
  refine ((PinManager.quiet_hashPin pin).guarantees fun _ _ => rfl).bind fun hash => ?_
  refine Guarantees.bind ?_ fun _ => Guarantees.bind (fun _ => rfl) fun _ => fun _ => rfl
  exact Guarantees.of_run fun w => PinManager.run_install fun _ => ⟨rfl, rfl, rfl⟩

/-- A list that outlives a call that does not open it is still in its session. -/
theorem answer_session {c : Call} (hc : c.KeepsList) : (answer D c).Run b
    (fun _ w' => w'.next = none ∨ w'.pin.ka = b.pin.ka)
    (fun _ w' => w'.next = none ∨ w'.pin.ka = b.pin.ka) fun _ => True := by
  have hkept : ∀ {ε α : Type} {m : Cmd ε α} {f : α → Answer} {r : ε → Refusal},
      Guarantees kaKept m → (finish m f r).Run b
        (fun _ w' => w'.next = none ∨ w'.pin.ka = b.pin.ka)
        (fun _ w' => w'.next = none ∨ w'.pin.ka = b.pin.ka) fun _ => True := fun hm =>
    run_finish ((hm.run b).mono (fun _ _ h _ => ⟨.inr h, trivial⟩) (fun _ _ h => .inr h)
      fun _ _ => trivial)
  have hcred := kaKept_credNeutral D
  have hlist := kaKept_listOps D
  cases c with
  | cbor request =>
    rcases hc request rfl with rfl | ⟨rest, rfl⟩
    · exact hkept (Guarantees.throw _)
    · exact hkept hlist.cmdGetNextAssertion
  | u2f apdu =>
    refine hkept (hlist.toSignOps.handleU2f (fun data => ?_) apdu)
    exact hlist.toCheckOps.u2fRegister (guarantees_registerRow hcred.sideOps.attestationMaterial
      hcred.registerWith) data
  | ctlReset =>
    -- the list is dropped before the key agreement changes
    have hdropped : Guarantees listKept (resetApproved D) :=
      (listKept_u2fOps D).toWorkOps.resetApproved
    refine run_finish (run_bind.mpr (run_bind.mpr ?_))
    refine ((hlist.toCheckOps.confirmLocal _).run b).mono ?_ (fun _ _ h => .inr h)
      fun _ _ => trivial
    rintro _ w' -
    have hnone : ∀ w'', listKept.rel { w' with next := none } w'' → w''.next = none :=
      fun _ h => h.elim id id
    have hw' : resetApproved D w' = resetApproved D { w' with next := none } := rfl
    refine run_bind.mpr ?_
    rw [Run, hw']
    exact (hdropped.run { w' with next := none }).mono
      (fun _ w'' h e => ⟨.inl (hnone w'' h), trivial⟩) (fun _ w'' h => .inl (hnone w'' h))
      fun _ _ => trivial
  | ctlSetPin pin => exact hkept ((hlist.toCheckOps.confirmLocal _).bind fun _ =>
      kaKept_setPinLocal pin)
  | ctlDelete credId => exact hkept (hcred.ctlDelete credId)
  | setSerial serial => exact hkept (hcred.sideOps.setSerial serial)
  | tpmParams => exact hkept hcred.sideOps.tpmStateOrCreate

/-- The session of a list over a call that does not open it. -/
theorem call_session {c : Call} (hc : c.KeepsList) (e : Env) :
    (w.call D c e).next = none ∨ (w.call D c e).pin.ka = w.pin.ka :=
  World.call_of_run (P := fun w' => w'.next = none ∨ w'.pin.ka = w.pin.ka)
    ((answer_session (D := D) (b := w.begin c e) hc).mono (fun _ _ h => h) (fun _ _ h => h)
      fun _ _ => .inl rfl)

/-- A getAssertion keeps the key agreement. -/
theorem call_getAssertion_session (body : Bytes) (e : Env) :
    (w.call D (.cbor (0x02 :: body)) e).next = none ∨
      (w.call D (.cbor (0x02 :: body)) e).pin.ka = w.pin.ka := by
  have hka : Guarantees kaKept (handleCbor D (0x02 :: body)) :=
    (kaKept_listOps D).guarantees_dropNext.bind fun _ => (kaKept_listOps D).cmdGetAssertion body
  exact World.call_of_run (P := fun w' => w'.next = none ∨ w'.pin.ka = w.pin.ka)
    (run_finish ((hka.run _).mono (fun _ _ h _ => ⟨.inr h, .inl rfl⟩) (fun _ _ h => .inr h)
      fun _ _ => .inl rfl))

/-- The last getAssertion of the steps, if nothing has dropped its list since, has the
extension input `ext` and was made under the key agreement `ka`. -/
def Asked (D : Device) (w : World) (steps : List Step) (ext : ExtensionsIn)
    (ka : Option EcdhKey) : Prop :=
  ∃ pre body e since q, steps = pre ++ .call (.cbor (0x02 :: body)) e :: since ∧
    (∀ s ∈ since, ∃ c e, s = .call c e ∧ c.KeepsList) ∧ getAssertionRequest body = .ok q ∧
    ext = q.ext ∧ ka = (w.run D pre).pin.ka

/-- The request that a call answers, by its extension input and the key agreement under which
it was made: a getAssertion answers its own, a getNextAssertion that of the getAssertion before
it. -/
def Requested (D : Device) (w : World) (pre : List Step) (c : Call) (ext : ExtensionsIn)
    (ka : Option EcdhKey) : Prop :=
  (∃ body q, c = .cbor (0x02 :: body) ∧ getAssertionRequest body = .ok q ∧ ext = q.ext ∧
    ka = (w.run D pre).pin.ka) ∨
  ∃ rest, c = .cbor (0x08 :: rest) ∧ Asked D w pre ext ka

theorem Asked.concat {steps : List Step} {ext : ExtensionsIn} {ka : Option EcdhKey} {c : Call}
    {e : Env} (h : Asked D w steps ext ka) (hc : c.KeepsList) :
    Asked D w (steps ++ [.call c e]) ext ka := by
  obtain ⟨pre, body, e₀, since, q, rfl, hsince, hq, hext, hka⟩ := h
  refine ⟨pre, body, e₀, since ++ [.call c e], q, by simp, fun s hs => ?_, hq, hext, hka⟩
  rcases List.mem_append.mp hs with hs | hs
  · exact hsince s hs
  · exact ⟨c, e, List.mem_singleton.mp hs, hc⟩

/-- The step lemma: a list that is there after one more step is in its session. -/
theorem Asked.step {steps : List Step} {s : Step}
    (ih : ∀ st, (w.run D steps).next = some st →
      Asked D w steps st.ext (w.run D steps).pin.ka) {st' : AssertionState}
    (hst' : (s.exec D (w.run D steps)).next = some st') :
    Asked D w (steps ++ [s]) st'.ext (s.exec D (w.run D steps)).pin.ka := by
  have hka : ∀ {w' : World}, w'.next = some st' →
      w'.next = none ∨ w'.pin.ka = (w.run D steps).pin.ka → w'.pin.ka = (w.run D steps).pin.ka :=
    fun hw' hsession => hsession.resolve_left (by simp [hw'])
  obtain ⟨c, e, rfl, ⟨hkeep, st, hst, rest, -, rfl⟩ | ⟨body, -, -, rfl, -, -, hlist⟩⟩ :=
    Step.next_exec hst'
  · rw [hka hst' (call_session hkeep e)]
    exact (ih st hst).concat hkeep
  · obtain ⟨q, uv, rest, i, hq, rfl⟩ := hlist
    exact ⟨steps, body, e, [], q, rfl, fun _ => List.not_mem_nil.elim, hq, rfl,
      hka hst' (call_getAssertion_session body e)⟩

/-- **A pending list is in its session.** -/
theorem asked_of_pending (env : Env) (steps : List Step) :
    ∀ st, ((World.fresh env).run D steps).next = some st →
      Asked D (World.fresh env) steps st.ext ((World.fresh env).run D steps).pin.ka := by
  induction steps using List.reverseRecOn with
  | nil =>
    intro st hst
    cases hst
  | append_singleton steps s ih =>
    intro st hst
    rw [World.run_concat] at hst ⊢
    exact Asked.step ih hst

end Session

/-! ### The commands -/

section Commands

variable {b : World}

/-- A getAssertion carries the output for a stored row. -/
theorem cmdGetAssertion_carries (body : Bytes) :
    (cmdGetAssertion D body).Run b
      (fun r _ => ∃ q cred, getAssertionRequest body = .ok q ∧ cred ∈ b.store.creds ∧
        Carries D b.pin.ka b.env cred q.ext r) (fun _ _ => True) fun _ => True := by
  refine run_bind.mpr (run_modify.mpr (run_bind.mpr
    (run_ofExcept.mpr ⟨fun q hq => ?_, fun _ _ => trivial⟩)))
  refine run_bind.mpr (run_gets.mpr (run_bind.mpr ?_))
  refine (((onward_askOps.checkPinAuth _ _ _ _ _ _ _).and
    ((kaKept_listOps D).toCheckOps.checkPinAuth _ _ _ _ _ _ _)).run _).onReturn ?_
  rintro uv w₁ ⟨⟨hlater₁, -⟩, hka₁⟩
  dsimp only
  rcases hsorted : sortCandidates (candidates b.store (D.provider.sha256 q.rpId) q.allowList) with
    _ | ⟨first, rest⟩
  · trivial
  have hfirst : first ∈ b.store.creds :=
    mem_of_mem_sortCandidates (hsorted ▸ List.mem_cons_self)
  refine run_assertFirst (M := fun w₂ => b.env.Later w₂.env ∧ w₂.pin.ka = b.pin.ka) ?_
    (fun w₂ w₃ ⟨hlater₂, hka₂⟩ hopened => ?_) fun _ _ _ => trivial
  · refine (((onward_askOps.confirmAssertion q _ first).and
      ((kaKept_listOps D).toCheckOps.confirmAssertion q _ first)).run w₁).onReturn ?_
    rintro _ w₂ ⟨⟨hlater₂, -⟩, hka₂⟩
    exact ⟨hlater₁.trans hlater₂, hka₂.trans hka₁⟩
  · -- opening the list is the only step left before the assertion is built
    have hopen : b.env.Later w₃.env ∧ w₃.pin.ka = b.pin.ka := by
      rcases hopened with ⟨-, rfl⟩ | ⟨-, e, he, rfl⟩
      · exact ⟨hlater₂, hka₂⟩
      · exact ⟨hlater₂.trans he, hka₂⟩
    refine (buildAssertion_carries first _ _ _ _ _ _).onReturn (fun r _ hr => ?_)
    exact ⟨q, first, hq, hfirst, (hopen.2 ▸ hr).of_later hopen.1⟩

/-- A getNextAssertion carries the output for a row of the list. -/
theorem cmdGetNextAssertion_carries :
    (cmdGetNextAssertion D).Run b
      (fun r _ => ∃ st cred, b.next = some st ∧ cred ∈ st.remaining ∧
        Carries D b.pin.ka b.env cred st.ext r) (fun _ _ => True) fun _ => True := by
  refine run_cmdGetNextAssertion (fun _ => trivial) (fun st cred rest e hst hrem _ he => ?_)
    fun _ => trivial
  refine (buildAssertion_carries cred _ _ _ _ _ _).mono (fun r _ hr => ?_)
    (fun _ _ _ => ⟨trivial, trivial⟩) fun _ _ => trivial
  have hcarries : ∃ st cred, b.next = some st ∧ cred ∈ st.remaining ∧
      Carries D b.pin.ka b.env cred st.ext r :=
    ⟨st, cred, hst, hrem ▸ List.mem_cons_self, hr.of_later he⟩
  exact ⟨hcarries, hcarries⟩

/-- **What a call carries.** An assertion with an extension output is that of a getAssertion
for a stored row, or of a getNextAssertion for a row of the list. -/
theorem answer_carries (c : Call) : (answer D c).Run b
    (fun a _ => ∀ credId authData sig user number,
      a = .cbor (.assertion credId authData sig user number) →
      (∃ body q cred, c = .cbor (0x02 :: body) ∧ getAssertionRequest body = .ok q ∧
        cred ∈ b.store.creds ∧ Carries D b.pin.ka b.env cred q.ext
          (.assertion credId authData sig user number)) ∨
      ∃ rest st cred, c = .cbor (0x08 :: rest) ∧ b.next = some st ∧ cred ∈ st.remaining ∧
        Carries D b.pin.ka b.env cred st.ext (.assertion credId authData sig user number))
    (fun _ _ => True) fun _ => True := by
  refine run_answer (logGrows_pieces D).toCallOps (fun a _ ha _ => ?_) (fun _ _ _ => trivial)
    (fun _ _ => trivial) ?_ ?_ ?_ ?_
  · rintro credId authData sig user number rfl
    exact ha.elim
  · rintro body rfl
    refine (cmdMakeCredential_returns body _).weaken ?_
    rintro _ w' ⟨authData, sig, rfl⟩ e
    refine ⟨fun _ _ _ _ _ h => ?_, trivial⟩
    cases h
  · rintro body rfl
    refine (cmdGetAssertion_carries body).onReturn ?_
    rintro r w' ⟨q, cred, hq, hcred, hr⟩ e
    refine ⟨?_, trivial⟩
    rintro credId authData sig user number ha
    obtain rfl := Answer.cbor.inj ha
    exact .inl ⟨body, q, cred, rfl, hq, hcred, hr⟩
  · -- getNextAssertion goes by the session, not by its own request
    rintro rest rfl
    refine cmdGetNextAssertion_carries.onReturn ?_
    rintro r w' ⟨st, cred, hst, hcred, hr⟩ e
    refine ⟨?_, trivial⟩
    rintro credId authData sig user number ha
    obtain rfl := Answer.cbor.inj ha
    exact .inr ⟨rest, st, cred, rfl, hst, hcred, hr⟩
  · rintro apdu req rfl - - -
    refine run_onReturn.mpr fun _ _ _ _ => ⟨fun _ _ _ _ _ h => ?_, trivial⟩
    cases h

end Commands

/-! ### The credRandom of a row -/

/-- The row holds, wrapped, the credRandom that was made for it. -/
def HoldsSecret (log : List Event) (c : Credential) : Prop :=
  ∃ secret, .credRandomMade c.credId secret c.credRandom ∈ log ∧
    (c.backend = .software → c.credRandom = secret.bytes)

theorem holdsSecret_rowLaw (D : Device) : RowLaw D HoldsSecret where
  grow := by
    rintro l l' c hl ⟨secret, hmade, hsoft⟩
    exact ⟨secret, hl.subset hmade, hsoft⟩
  used n t h := h
  new l template m credId now secret wrapped hwrapped _ := by
    refine ⟨secret, List.mem_append_right _ ?_, hwrapped⟩
    exact List.mem_cons_of_mem _ (List.mem_cons_of_mem _ (List.mem_cons_of_mem _
      List.mem_cons_self))

/-- The credential a credRandom was made for. -/
def Event.madeFor : Event → Option (Block 32)
  | credRandomMade credId _ _ => some credId
  | _ => none

/-- The credentials that have been given a credRandom, in order. -/
def givenTo (log : List Event) : List (Block 32) := log.filterMap Event.madeFor

/-- No credential is given two credRandoms, if no id repeats. -/
theorem credRandom_unique {log : List Event} (h : (givenTo log).Nodup) {credId : Block 32}
    {secret secret' : Block 64} {wrapped wrapped' : Bytes}
    (hmade : .credRandomMade credId secret wrapped ∈ log)
    (hmade' : .credRandomMade credId secret' wrapped' ∈ log) : secret = secret' := by
  induction log with
  | nil => cases hmade
  | cons ev log ih =>
    -- an id given a secret twice would be twice in the list
    have hgiven : ∀ s x, Event.credRandomMade credId s x ∈ log → credId ∈ givenTo log :=
      fun s x hx => List.mem_filterMap.mpr ⟨_, hx, rfl⟩
    rcases List.mem_cons.mp hmade with rfl | hmem
    · rcases List.mem_cons.mp hmade' with heq | hmem'
      · cases heq
        rfl
      · exact absurd (hgiven _ _ hmem') (List.nodup_cons.mp h).1
    · rcases List.mem_cons.mp hmade' with rfl | hmem'
      · exact absurd (hgiven _ _ hmem) (List.nodup_cons.mp h).1
      · refine ih ?_ hmem hmem'
        exact ((List.sublist_cons_self ev log).filterMap _).nodup h

/-- Whatever a credRandom was wrapped to, `unwrap_secret` gives it back, if anything. -/
def Env.UnwrapsMade (e : Env) (log : List Event) : Prop :=
  ∀ credId secret wrapped, .credRandomMade credId secret wrapped ∈ log →
    ∀ i cr, e.unwrap.get i wrapped = some cr → cr = secret.bytes

/-- A row is unwrapped to the credRandom that was made for it. -/
theorem HoldsSecret.unwraps {log : List Event} {c : Credential} {e : Env} {cr : Bytes}
    (h : HoldsSecret log c) (he : e.UnwrapsMade log) (hcr : Unwraps e c cr) :
    ∃ secret wrapped, .credRandomMade c.credId secret wrapped ∈ log ∧ cr = secret.bytes := by
  obtain ⟨secret, hmade, hsoft⟩ := h
  refine ⟨secret, _, hmade, ?_⟩
  rcases hcr with ⟨hb, rfl⟩ | ⟨i, hi⟩
  · exact hsoft hb
  · exact he _ _ _ hmade i cr hi

/-- **hmac-secret is stable.** Over a run in which no credential id repeats, every credential
has one credRandom for its life: whatever hmac-secret output a response carries, under the
secret of its request it is decrypted to the HMACs of the salts of the request, under the half
of that credRandom that the UV flag of the response selects. -/
theorem hmacSecret_stable {env : Env} {steps : List Step} (haes : D.provider.AesInverts)
    (hids : (givenTo ((World.fresh env).run D steps).log).Nodup)
    (hunwrap : ∀ c e, .call c e ∈ steps → e.UnwrapsMade ((World.fresh env).run D steps).log) :
    ∃ credRandom : Block 32 → Block 64,
      (∀ credId secret wrapped, .credRandomMade credId secret wrapped ∈
        ((World.fresh env).run D steps).log → credRandom credId = secret) ∧
      ∀ pre c e post w' credId authData sig user number,
        steps = pre ++ .call c e :: post →
        answer D c (((World.fresh env).run D pre).begin c e) =
          (.ok (.cbor (.assertion credId authData sig user number)), w') →
        authData.extensions ≠ [] →
        ∃ ext ka key ss salts out,
          Requested D (World.fresh env) pre c ext ka ∧ ext.hmacKeyAgreement = some key ∧
          D.provider.sharedWith ka key = some ss ∧
          (salts.length = 1 ∨ salts.length = 2) ∧
          ss.decrypt D.provider ext.hmacSaltEnc = salts.flatMap Block.bytes ∧
          (∀ iv platform, ext.hmacSaltEnc =
            ss.encrypt D.provider iv (platform.flatMap Block.bytes) → salts = platform) ∧
          (∃ wrapped, .credRandomMade credId (credRandom credId) wrapped ∈
            ((World.fresh env).run D pre).log) ∧
          authData.extensions = hmacSecretMap out ∧
          ss.decrypt D.provider out = D.provider.hmacs
            (credRandomHalf (credRandom credId).bytes (decide authData.uv)) salts := by
  classical
  set log := ((World.fresh env).run D steps).log
  let credRandom : Block 32 → Block 64 := fun credId =>
    if h : ∃ secret wrapped, .credRandomMade credId secret wrapped ∈ log then h.choose
    else Block.replicate 64 0
  have hmade : ∀ credId secret wrapped, .credRandomMade credId secret wrapped ∈ log →
      credRandom credId = secret := by
    intro credId secret wrapped h
    have hex : ∃ secret wrapped, .credRandomMade credId secret wrapped ∈ log := ⟨secret, wrapped, h⟩
    obtain ⟨wrapped', h'⟩ := hex.choose_spec
    change dite _ _ _ = secret
    rw [dif_pos hex]
    exact credRandom_unique hids h' h
  refine ⟨credRandom, hmade, ?_⟩
  rintro pre c e post w' credId authData sig user number rfl hanswer hne
  have hpre : ((World.fresh env).run D pre).log <+: log := World.log_isPrefix_run pre _
  have hrows := (holdsSecret_rowLaw D).run env pre
  -- the row that the response is for, and where its request comes from
  obtain ⟨cred, ext, hcred, hrequested, hcarries⟩ : ∃ cred ext,
      HoldsSecret ((World.fresh env).run D pre).log cred ∧
      Requested D (World.fresh env) pre c ext ((World.fresh env).run D pre).pin.ka ∧
      Carries D ((World.fresh env).run D pre).pin.ka e cred ext
        (.assertion credId authData sig user number) := by
    rcases (answer_carries c).ok hanswer _ _ _ _ _ rfl with
      ⟨body, q, cred, rfl, hq, hcred, hcarries⟩ | ⟨rest, st, cred, rfl, hst, hcred, hcarries⟩
    · exact ⟨cred, q.ext, hrows.1.1 cred hcred, .inl ⟨body, q, rfl, hq, rfl, rfl⟩, hcarries⟩
    · exact ⟨cred, st.ext, hrows.1.2 st hst cred hcred,
        .inr ⟨rest, rfl, asked_of_pending env pre st hst⟩, hcarries⟩
  obtain ⟨authData', sig', user', number', hreply, hout⟩ := hcarries
  obtain ⟨rfl, rfl, -⟩ := Reply.assertion.inj hreply
  obtain ⟨out, hmap, key, ss, salts, cr, iv, hkey, hss, hsalts, hdec, hcr, rfl⟩ := hout hne
  have hunwrap' : e.UnwrapsMade ((World.fresh env).run D pre).log := fun credId secret wrapped h =>
    hunwrap c e (by simp) credId secret wrapped (hpre.subset h)
  obtain ⟨secret, wrapped, hsecret, rfl⟩ := hcred.unwraps hunwrap' hcr
  have heq : credRandom cred.credId = secret := hmade _ _ _ (hpre.subset hsecret)
  refine ⟨ext, _, key, ss, salts, _, hrequested, hkey, hss, hsalts, hdec, fun iv' platform hp => ?_,
    ⟨wrapped, heq ▸ hsecret⟩, hmap, ?_⟩
  · rw [hp, ss.decrypt_encrypt haes _ (length_flatMap_bytes platform)] at hdec
    exact (flatMap_bytes_inj (by decide) hdec).symm
  · rw [heq]
    refine ss.decrypt_encrypt haes iv ?_
    rw [Provider.length_hmacs]
    omega

/-- getAssertion for an RP with an hmac-secret input. -/
def Call.getHmacSecret (rpId saltEnc saltAuth : Bytes) : Call :=
  .cbor <| 0x02 :: encodeMap
    [(encodeInt 1, encodeTstr rpId), (encodeInt 2, encodeBstr (List.replicate 32 0)),
      (encodeInt 4, encodeMap [(encodeTstr (ascii "hmac-secret"), encodeMap
        [(encodeInt 1, encodeCoseEcdh ⟨Block.replicate 32 0, Block.replicate 32 0⟩),
          (encodeInt 2, encodeBstr saltEnc), (encodeInt 3, encodeBstr saltAuth),
          (encodeInt 4, encodeInt 2)])])]

/-- A getAssertion with one salt. -/
def oneSalt : Call :=
  .getHmacSecret (ascii "a") (List.replicate 16 0 ++ List.replicate 32 7) (List.replicate 32 0)

/-- A credential is made, and an hmac-secret asked for. -/
def oneSaltSteps : List Step :=
  [.call (.makeCredential (ascii "a") [1]) (.calm 1), .call oneSalt (.calm 2)]

/-- The response is an assertion without user verification for the first credential, with an
extension output. -/
def carriesOutput : Outcome Refusal Answer → Bool
  | .ok (.cbor (.assertion credId authData _ _ _)) =>
    credId = Block.replicate 32 1 && !authData.uv && !authData.extensions.isEmpty
  | _ => false

theorem exists_of_carriesOutput {o : Outcome Refusal Answer} (h : carriesOutput o = true) :
    ∃ authData sig user number,
      o = .ok (.cbor (.assertion (Block.replicate 32 1) authData sig user number)) ∧
        ¬ authData.uv ∧ authData.extensions ≠ [] := by
  unfold carriesOutput at h
  split at h
  · simp only [Bool.and_eq_true, Bool.not_eq_true', decide_eq_true_eq, decide_eq_false_iff_not,
      List.isEmpty_eq_false_iff] at h
    obtain ⟨⟨rfl, huv⟩, hne⟩ := h
    exact ⟨_, _, _, _, rfl, huv, hne⟩
  · cases h

/-- Every credRandom is all ones, and wrapped as it is. -/
def Event.madeOnes : Event → Bool
  | credRandomMade _ secret wrapped => secret = Block.replicate 64 1 && wrapped = secret.bytes
  | _ => true

/-- The response carries the HMAC under the last half of the credRandom. -/
theorem hmacSecret_stable_oneSalt : ∃ credRandom : Block 32 → Block 64,
    credRandom (Block.replicate 32 1) = Block.replicate 64 1 ∧
      ∃ authData sig user number w' ss salts out,
        answer .plain oneSalt (((World.fresh (.calm 0)).run .plain (oneSaltSteps.take 1)).begin
          oneSalt (.calm 2)) =
            (.ok (.cbor (.assertion (Block.replicate 32 1) authData sig user number)), w') ∧
        authData.extensions = hmacSecretMap out ∧
        SharedSecret.decrypt .plain ss out = Provider.hmacs .plain
          (credRandomHalf (Block.replicate 64 1).bytes false) salts := by
  have hall : ((World.fresh (.calm 0)).run .plain oneSaltSteps).log.all Event.madeOnes := by
    decide +kernel
  have hmade : ∀ credId secret wrapped, .credRandomMade credId secret wrapped ∈
      ((World.fresh (.calm 0)).run .plain oneSaltSteps).log →
        secret = Block.replicate 64 1 ∧ wrapped = secret.bytes := by
    intro credId secret wrapped hev
    simpa [Event.madeOnes] using List.all_eq_true.mp hall _ hev
  have hunwrap : ∀ c e, .call c e ∈ oneSaltSteps →
      e.UnwrapsMade ((World.fresh (.calm 0)).run .plain oneSaltSteps).log := by
    intro c e hmem credId secret wrapped hev i cr hcr
    have hsome : e.unwrap.get i wrapped = some wrapped := by
      rcases List.mem_cons.mp hmem with h | h
      · cases h
        rfl
      · cases List.mem_singleton.mp h
        rfl
    rw [hsome] at hcr
    rw [← Option.some.inj hcr]
    exact (hmade _ _ _ hev).2
  obtain ⟨credRandom, hfor, hstable⟩ := hmacSecret_stable (D := .plain) (fun _ _ _ _ => rfl)
    (by decide +kernel) hunwrap
  -- the assertion does carry an output, so the law says something here
  have hcarries : carriesOutput (answer .plain oneSalt (((World.fresh (.calm 0)).run .plain
      (oneSaltSteps.take 1)).begin oneSalt (.calm 2))).1 = true := by
    decide +kernel
  rcases hout : answer .plain oneSalt (((World.fresh (.calm 0)).run .plain
    (oneSaltSteps.take 1)).begin oneSalt (.calm 2)) with ⟨o, w'⟩
  rw [hout] at hcarries
  obtain ⟨authData, sig, user, number, rfl, huv, hne⟩ := exists_of_carriesOutput hcarries
  obtain ⟨ext, ka, key, ss, salts, out, -, -, -, -, -, -, ⟨wrapped, hsecret⟩, hmap, hdec⟩ :=
    hstable (oneSaltSteps.take 1) oneSalt (.calm 2) [] _ _ _ _ _ _ rfl hout hne
  have hpre : ((World.fresh (.calm 0)).run .plain (oneSaltSteps.take 1)).log <+:
      ((World.fresh (.calm 0)).run .plain (oneSaltSteps.take 1 ++ [.call oneSalt (.calm 2)])).log :=
    World.log_isPrefix_run _ _
  have hone : credRandom (Block.replicate 32 1) = Block.replicate 64 1 :=
    (hmade _ _ _ (hpre.subset hsecret)).1
  rw [hone, decide_eq_false huv] at hdec
  exact ⟨credRandom, hone, authData, sig, user, number, w', ss, salts, out, rfl, hmap, hdec⟩

end Swpasskey
