import Swpasskey.Cbor.Size
import Swpasskey.Ctap.HidFramer
import Swpasskey.Ctap.HmacSecret
import Swpasskey.Ctap.UserVerification

/-!
# Responses that fit the transport

`HidFramer::frame` makes no report at all of a payload with more than `kMaxMessage` bytes, and
`worker_main` does not look: such a response is lost, and the platform waits in vain. Almost
every response is short whatever the request was. The exception is an assertion with user
verification, which echoes the name and the display name of the user. makeCredential bounds the
ids but not the names, so a name that has fitted into the request may not fit into the response,
together with what the request did not have: the signature, the extension output, the number of
credentials.
-/

namespace Swpasskey

open Proc Cbor HidFramer

variable {D : Device}

/-! ### What the outside is known to produce -/

/-- AES-CBC without padding keeps the length, and the attestation certificate is short. -/
structure Provider.Sized (P : Provider) : Prop where
  encrypt : ∀ key iv pt, pt.length % 16 = 0 → (P.aes256cbcEncrypt key iv pt).length = pt.length
  decrypt : ∀ key iv ct, ct.length % 16 = 0 → (P.aes256cbcDecrypt key iv ct).length = ct.length
  cert : ∀ scalar pub cert,
    P.makeSelfSignedP256Cert scalar pub kAttestationCn = some cert → cert.length ≤ 1024

/-- A DER signature over P-256 has at most 72 bytes. -/
def Env.SignsShort (e : Env) : Prop :=
  ∀ i key message sig, e.sign.get i key message = some sig → sig.length ≤ 72

theorem Env.SignsShort.later {e e' : Env} (h : e.SignsShort) (he : e.Later e') : e'.SignsShort := by
  intro i key message sig hsig
  obtain ⟨k, hk⟩ := he.sign
  rw [hk, Stream'.get_drop] at hsig
  exact h _ key message sig hsig

/-! ### The size of an assertion -/

/-- The user entity of a row. -/
def Credential.user (c : Credential) : UserEntity := ⟨c.userId, c.userName, c.userDisplay⟩

/-- The size of the extension output of an assertion: the salts come back as HMACs of the same
length. -/
def extensionSize (flags : UInt8) (ext : ExtensionsIn) : ℕ :=
  if ext.hmacSecretPresent && flags &&& kFlagUp ≠ 0 then 15 + ext.hmacSaltEnc.length else 0

/-- The size of numberOfCredentials with its key. -/
def numberSize : Option ℕ → ℕ
  | some n => if n > 1 then 1 + (encodeUint (UInt64.ofNat n)).length else 0
  | none => 0

theorem numberSize_le (number : Option ℕ) : numberSize number ≤ 10 := by
  rcases number with _ | n
  · exact Nat.zero_le _
  · rw [numberSize, length_encodeUint]
    have := headSize_le (UInt64.ofNat n).toNat
    split <;> omega

theorem length_encodeDescriptor (credId : Block 32) :
    (encodeDescriptor credId.bytes).length = 54 := by
  rw [encodeDescriptor, length_encodeMap (by simp)]
  have hid : (encodeBstr credId.bytes).length = 34 := by
    rw [length_encodeBstr (by simp), credId.length_bytes]
    rfl
  have hkey : (encodeTstr (ascii "id")).length = 3 := by decide
  have htype : (encodeTstr (ascii "type")).length = 5 := by decide
  have hvalue : (encodeTstr (ascii "public-key")).length = 11 := by decide
  simp [hid, hkey, htype, hvalue]

theorem length_hmacSecretMap {out : Bytes} (h : 24 ≤ out.length) (h' : out.length ≤ 255) :
    (hmacSecretMap out).length = 15 + out.length := by
  rw [hmacSecretMap, length_encodeMap (by simp)]
  have hkey : (encodeTstr (ascii "hmac-secret")).length = 12 := by decide
  have hhead : headSize out.length = 2 := by
    rw [headSize, if_neg (by omega), if_pos h']
  simp only [List.map_cons, List.map_nil, List.sum_cons, List.sum_nil, hkey,
    length_encodeBstr (v := out) (by omega), hhead]
  omega

/-- The size of an assertion, from those of its parts. -/
theorem length_encode_assertion {credId : Block 32} {a : AuthData} {sig : Bytes}
    {user : UserEntity} {number : Option ℕ} :
    (Reply.assertion credId a sig user number).encode.length =
      58 + (encodeBstr a.bytes).length + (encodeBstr sig).length +
        (if user.id.isEmpty then 0 else 1 + (encodeUser user a.uv).length) +
        numberSize number := by
  -- the two optional entries, each at most one
  set u : List Entry := if user.id.isEmpty then []
    else [(encodeUint 4, encodeUser user (a.flags &&& kFlagUv ≠ 0))] with hu
  set n : List Entry := match number with
    | some n => if n > 1 then [(encodeUint 5, encodeUint (UInt64.ofNat n))] else []
    | none => [] with hn
  have husize : u.length ≤ 1 ∧ (u.map fun e => e.1.length + e.2.length).sum =
      if user.id.isEmpty then 0 else 1 + (encodeUser user a.uv).length := by
    rw [hu]
    split
    · exact ⟨Nat.zero_le _, rfl⟩
    · exact ⟨Nat.le_refl _, rfl⟩
  have hnsize : n.length ≤ 1 ∧ (n.map fun e => e.1.length + e.2.length).sum =
      numberSize number := by
    rw [hn]
    rcases number with _ | n
    · exact ⟨Nat.zero_le _, rfl⟩
    · rw [numberSize]
      dsimp only
      split
      · exact ⟨Nat.le_refl _, rfl⟩
      · exact ⟨Nat.zero_le _, rfl⟩
  have hlen : ∀ l : List Entry, l.length = 3 → (l ++ u ++ n).length < 24 := fun l hl => by
    simp only [List.length_append]
    omega
  have hkeys : (encodeUint 1).length = 1 ∧ (encodeUint 2).length = 1 ∧
      (encodeUint 3).length = 1 := by decide
  change (encodeMap (_ ++ u ++ n)).length = _
  rw [length_encodeMap (hlen _ rfl), List.map_append, List.map_append, List.sum_append,
    List.sum_append, husize.2, hnsize.2]
  simp only [List.map_cons, List.map_nil, List.sum_cons, List.sum_nil, length_encodeDescriptor,
    hkeys]
  omega

/-! ### What `build_assertion` makes -/

/-- The reply is an assertion of the row `cred`, with parts of the expected sizes. -/
def AssertionOf (cred : Credential) (flags : UInt8) (ext : ExtensionsIn) (number : Option ℕ)
    (r : Reply) : Prop :=
  ∃ a sig, r = .assertion cred.credId a sig cred.user number ∧
    (a.uv ↔ flags &&& kFlagUv ≠ 0) ∧ a.bytes.length = 37 + extensionSize flags ext ∧
    extensionSize flags ext ≤ 95 ∧ sig.length ≤ 72

section Build

variable {w : World}

theorem signDer_short (h : w.env.SignsShort) (key : SigningKey) (message : Bytes) :
    (signDer key message).Run w (fun sig _ => sig.length ≤ 72) (fun _ _ => True)
      fun _ => True := by
  refine run_bind.mpr (run_ask_head (fun e => ?_) fun _ => trivial)
  dsimp only
  rcases hsig : w.env.ticked.sign.head key message with _ | sig
  · trivial
  · exact h 0 key message sig hsig

theorem hmacSalts_length (sel : Bytes) : ∀ salts : List Bytes,
    Returns (hmacSalts D sel salts) fun out => out.length = 32 * salts.length
  | [] => Returns.pure rfl
  | _ :: salts => Returns.bind_right fun _ => (hmacSalts_length sel salts).bind fun out hout =>
    Returns.pure (by rw [List.length_append, Block.length_bytes, List.length_cons, hout]; omega)

variable (hsized : D.provider.Sized)

include hsized

theorem pin2Encrypt_length (ss : SharedSecret) {pt : Bytes} (hpt : pt.length % 16 = 0) :
    Returns (pin2Encrypt D.provider ss pt) fun ct => ct.length = 16 + pt.length := by
  refine (pin2Encrypt_returns D.provider ss pt).mono ?_
  rintro ct ⟨iv, rfl⟩
  rw [SharedSecret.encrypt, List.length_append, iv.length_bytes, hsized.encrypt _ _ _ hpt]

theorem pin2Decrypt_length (ss : SharedSecret) (ct : Bytes) :
    Returns (pin2Decrypt D.provider ss ct) fun pt => ct.length = 16 + pt.length := by
  refine Returns.bind (P := fun _ => 32 ≤ ct.length ∧ ct.length % 16 = 0) ?_ fun _ hct => ?_
  · exact Returns.require fun h => by simpa using h
  refine Returns.bind_right fun _ => Returns.bind_right fun _ => Returns.bind_right fun _ => ?_
  refine Returns.pure ?_
  have hlen := hsized.decrypt ss.aesKey (Block.ofPadded 16 (ct.take 16)) (ct.drop 16)
    (by rw [List.length_drop]; omega)
  rw [hlen, List.length_drop]
  omega

/-- The output is as long as the input. -/
theorem hmacSecretOutput_length (cred : Credential) (ext : ExtensionsIn) (uv : Bool) :
    Returns (hmacSecretOutput D cred ext uv) fun out => out.length = ext.hmacSaltEnc.length ∧
      24 ≤ out.length ∧ out.length ≤ 80 := by
  unfold hmacSecretOutput
  rcases ext.hmacKeyAgreement with _ | key
  · exact Returns.throw _
  refine Returns.bind_right fun _ => Returns.bind_right fun _ => Returns.bind_right fun ss => ?_
  refine Returns.bind_right fun _ => Returns.bind_right fun _ => ?_
  refine (pin2Decrypt_length hsized ss _).orFail.bind fun salts hsalts => ?_
  refine Returns.bind (P := fun _ => salts.length = 32 ∨ salts.length = 64) ?_ fun _ hlen => ?_
  · exact Returns.require fun h => by simpa using h
  refine Returns.bind_right fun _ => Returns.bind_right fun _ => Returns.bind_right fun _ => ?_
  refine Returns.bind_right fun _ => (hmacSalts_length _ _).orFail.bind fun out hout => ?_
  -- one salt gives one block of output, and two give two
  have hout' : out.length = salts.length := by
    rw [hout]
    rcases hlen with hlen | hlen
    · rw [if_pos hlen, hlen]
      rfl
    · rw [if_neg (by omega), hlen]
      rfl
  refine ((pin2Encrypt_length hsized ss (by omega)).orFail).mono fun ct hct => ?_
  omega

theorem assertionExtensions_length (cred : Credential) (flags : UInt8) (ext : ExtensionsIn) :
    Returns (assertionExtensions D cred flags ext) fun l =>
      l.length = extensionSize flags ext ∧ l.length ≤ 95 := by
  unfold assertionExtensions extensionSize
  split
  · refine (hmacSecretOutput_length hsized cred ext _).bind fun out hout => Returns.pure ?_
    change (hmacSecretMap out).length = _ ∧ (hmacSecretMap out).length ≤ _
    rw [length_hmacSecretMap (by omega) (by omega)]
    omega
  · exact Returns.pure ⟨rfl, Nat.zero_le _⟩

/-- **What `build_assertion` makes.** -/
theorem buildAssertion_assertionOf (hshort : w.env.SignsShort) (cred : Credential)
    (rpIdHash clientDataHash : Block 32) (flags : UInt8) (bump : Bool) (ext : ExtensionsIn)
    (number : Option ℕ) :
    (buildAssertion D cred rpIdHash clientDataHash flags bump ext number).Run w
      (fun r _ => AssertionOf cred flags ext number r) (fun _ _ => True) fun _ => True := by
  refine run_bind.mpr (((quiet_loadKey cred).run w).onReturn ?_)
  rintro key _ ⟨e, he, rfl⟩
  refine run_bind.mpr ((((onward_askOps.assertionExtensions cred flags ext).run _).and
    (assertionExtensions_length hsized cred flags ext _)).onReturn ?_)
  rintro l w₁ ⟨⟨hlater, -⟩, hl, hle⟩
  refine run_bind.mpr ((signDer_short (hshort.later (he.trans hlater)) _ _).weaken
    fun sig w₂ hsig => ?_)
  have hof : AssertionOf cred flags ext number
      (.assertion cred.credId {
        rpIdHash
        flags := flags ||| (if l.isEmpty then 0 else kFlagEd)
        signCount := assertionCount cred bump
        attested := none
        extensions := l } sig ⟨cred.userId, cred.userName, cred.userDisplay⟩ number) := by
    refine ⟨_, sig, rfl, ?_, ?_, hl ▸ hle, hsig⟩
    · rw [AuthData.uv, or_kFlagEd_and _ _ (by decide)]
    · rw [← hl]
      simp [AuthData.bytes, be32]
      omega
  refine run_ite.mpr ⟨fun _ => ?_, fun _ => hof⟩
  refine run_bind.mpr (run_onReturn.mpr fun now w₃ _ => ?_)
  exact run_bind.mpr (run_onReturn.mpr fun _ _ _ => hof)

end Build

/-! ### The attestation certificate -/

/-- The attestation certificate of the store is short. -/
def Store.CertShort (s : Store) : Prop := ∀ a, s.u2f = some a → a.certDer.length ≤ 1024

/-- The attestation certificates in memory and in the file are short. -/
def CertsShort (w : World) : Prop := w.store.CertShort ∧ ∀ s, w.file = some s → s.CertShort

namespace CertsShort

variable {w w' : World}

theorem congr (h : CertsShort w) (hu2f : w'.store.u2f = w.store.u2f) (hfile : w'.file = w.file) :
    CertsShort w' :=
  ⟨fun a ha => h.1 a (hu2f ▸ ha), fun s hs => h.2 s (hfile ▸ hs)⟩

theorem flushed (h : CertsShort w) (m : Mutator) (e : Env) (ok : Bool) :
    CertsShort (w.flushed m e ok) := by
  cases ok with
  | false => exact h.congr rfl rfl
  | true =>
    refine ⟨h.1, fun s hs => ?_⟩
    obtain rfl := Option.some.inj hs
    exact h.1

theorem wiped (h : CertsShort w) : CertsShort w.wiped := ⟨fun _ ha => (by cases ha), h.2⟩

theorem persisterReset (h : CertsShort w) (e : Env) (ok gone : Bool) :
    CertsShort (w.persisterReset e ok gone) := by
  refine ⟨h.1, fun s hs => ?_⟩
  cases gone
  · exact h.2 s hs
  · cases hs

theorem restart (h : CertsShort w) : CertsShort w.restart := by
  refine ⟨fun a ha => ?_, h.2⟩
  rcases hfile : w.file with _ | s
  · rw [World.restart, hfile] at ha
    cases ha
  · rw [World.restart, hfile] at ha
    exact h.2 s hfile a ha

/-- The frame of the certificates. -/
abbrev frame : Frame World := Frame.invariant CertsShort

theorem credOps : CredOps frame where
  env _ _ h := h.congr rfl rfl
  creds _ _ h := h.congr rfl rfl
  dropNext _ h := h.congr rfl rfl
  flushed _ m e ok h := h.flushed m e ok
  event _ _ _ h := h.congr rfl rfl

theorem pinOps (D : Device) : PinOps D frame :=
  PinNeutral.pinOps {
    env := fun _ _ h => h.congr rfl rfl
    pin := fun _ _ h => h.congr rfl rfl
    manager := fun _ _ h => h.congr rfl rfl
    flushed := fun _ e ok h => h.flushed _ e ok
    event := fun _ _ _ h => h.congr rfl rfl
    installed := fun _ _ h => h.congr rfl rfl
    compared := fun _ _ _ h => h.congr rfl rfl } D

theorem wipe : Guarantees frame Store.wipe :=
  Guarantees.of_run fun _ => Store.run_wipe
    (fun e e' gone h => (h.wiped.persisterReset e true gone).flushed _ e' true)
    (fun e e' gone h => (h.wiped.persisterReset e true gone).flushed _ e' false)
    (fun e gone h => h.wiped.persisterReset e false gone) (fun _ h => h.wiped.congr rfl rfl)
    fun e _ gone h => (h.wiped.persisterReset e true gone).congr rfl rfl

theorem tpmStateOrCreate : Guarantees frame Store.tpmStateOrCreate := by
  refine Guarantees.of_run fun w => Store.run_tpmStateOrCreate (fun _ h => h)
    (fun t e h => CertsShort.flushed (w := w.withTpm t) ?_ _ e true)
    (fun _ _ _ h => h.congr rfl rfl)
    (fun t e h => CertsShort.flushed (w := w.withTpm t) ?_ _ e false) fun _ _ h => h.congr rfl rfl
  · exact h.congr rfl rfl
  · exact h.congr rfl rfl

theorem setSerial (serial : Bytes) : Guarantees frame (Store.setSerial serial) := by
  refine Guarantees.of_run fun w => ?_
  have hs : CertsShort w → CertsShort { w with store := { w.store with serial := serial } } :=
    fun h => h.congr rfl rfl
  exact Store.run_setSerial (fun _ h => h) (fun e _ h => (hs h).flushed _ e true)
    (fun e h => (hs h).flushed _ e false) fun _ h => (hs h).congr rfl rfl

/-- A registration uses the stored certificate, or makes a short one. -/
theorem run_attestationMaterial (hsized : D.provider.Sized) (h : CertsShort w) :
    (attestationMaterial D).Run w (fun a w' => a.2.length ≤ 1024 ∧ CertsShort w')
      (fun _ => CertsShort) CertsShort := by
  refine run_bind.mpr (run_gets.mpr ?_)
  rcases hu2f : w.store.u2f with _ | a
  · refine run_bind.mpr (((guarantees_generateKey credOps.env
      (fun w _ _ => credOps.event w _ trivial) _).run w).mono ?_ (fun _ _ h' => h' h)
      fun _ h' => h' h)
    intro key w₁ h₁
    rcases hcert : D.provider.makeSelfSignedP256Cert (Block.ofPadded 32 key.ref) key.pub
      kAttestationCn with _ | cert
    · exact h₁ h
    have hshort := hsized.cert _ _ _ hcert
    -- the certificate that is stored is the one just made
    have h₂ : CertsShort { w₁ with
        store := { w₁.store with u2f := some { priv := key.ref, certDer := cert } } } := by
      refine ⟨fun a ha => ?_, (h₁ h).2⟩
      obtain rfl := Option.some.inj ha
      exact hshort
    refine run_bind.mpr (run_bind.mpr (run_modify.mpr ?_))
    exact Store.run_flush (fun e => ⟨hshort, h₂.flushed _ e true⟩) (fun e => h₂.flushed _ e false)
      fun _ => h₂.congr rfl rfl
  · dsimp only
    split
    · exact h
    refine run_bind.mpr (run_require.mpr ⟨fun _ => ?_, fun _ => h⟩)
    split
    · exact h
    refine run_bind.mpr (run_ask (fun ok e => ?_) fun _ => h.congr rfl rfl)
    refine run_bind.mpr (run_require.mpr ⟨fun _ => ?_, fun _ => h.congr rfl rfl⟩)
    exact ⟨h.1 a hu2f, h.congr rfl rfl⟩

theorem pieces (hsized : D.provider.Sized) : Pieces D frame where
  env := credOps.env
  prompted _ _ _ h := h.congr rfl rfl
  verify := (pinOps D).verify
  dropNext := credOps.dropNext
  createCredential := credOps.createCredential
  attestationMaterial := Guarantees.of_invariantOr fun _ h =>
    (run_attestationMaterial hsized h).weaken fun _ _ h' => h'.2
  registerWith := credOps.registerWith
  ctlDelete := credOps.ctlDelete
  resetApproved := guarantees_resetApproved credOps.env credOps.dropNext
    (credOps.factoryReset wipe) (pinOps D).regenerateKeyAgreement tpmStateOrCreate
  tpmStateOrCreate := tpmStateOrCreate
  setSerial := setSerial
  handle := (pinOps D).handle
  setPinLocal := (pinOps D).setPinLocal
  updateCountAndUsed := credOps.updateCountAndUsed
  next _ _ h := h.congr rfl rfl

/-- Every run keeps the certificates short. -/
theorem run (hsized : D.provider.Sized) (env : Env) (steps : List Step) :
    CertsShort ((World.fresh env).run D steps) := by
  refine World.run_induction (fun w c e h => ?_) (fun w e h => ?_) steps ?_
  · have hbegin : CertsShort (w.begin c e) := h.congr rfl rfl
    exact World.call_of_run ((((pieces hsized).answer c).run _).mono
      (fun _ _ h' => (h' hbegin).congr rfl rfl) (fun _ _ h' => (h' hbegin).congr rfl rfl)
      fun _ h' => (h' hbegin).restart)
  · exact CertsShort.restart (w := { w with env := e }) (h.congr rfl rfl)
  · exact ⟨fun _ ha => (by cases ha), fun _ hs => (by cases hs)⟩

end CertsShort

/-! ### The other responses -/

/-- The payload of the answer has at most `kMaxMessage` bytes, the status of a CBOR response
included. -/
def Answer.Fits : Answer → Prop
  | .cbor r => r.encode.length < kMaxMessage
  | .u2f r => r.encode.length ≤ kMaxMessage
  | .done => True

instance : (a : Answer) → Decidable a.Fits
  | .cbor _ => inferInstanceAs (Decidable (_ < _))
  | .u2f _ => inferInstanceAs (Decidable (_ ≤ _))
  | .done => .isTrue trivial

theorem Answer.fits_cbor {r : Reply} :
    (Answer.cbor r).Fits ↔ r.encode.length < kMaxMessage := Iff.rfl

theorem length_encodeCoseKey_le {alg : ℤ} (halg : (encodeInt alg).length ≤ 9)
    (pub : P256PublicKey) :
    (encodeCoseKey alg pub).length ≤ 99 := by
  have hx := length_encodeBstr_le pub.x.bytes
  have hy := length_encodeBstr_le pub.y.bytes
  have hkeys : (encodeInt 1).length + (encodeInt 2).length + (encodeInt 3).length +
      (encodeInt (-1)).length + (encodeInt (-2)).length + (encodeInt (-3)).length = 6 ∧
      (encodeInt 1).length = 1 := by decide
  rw [Block.length_bytes] at hx hy
  rw [encodeCoseKey, length_encodeMap (by simp)]
  simp only [List.map_cons, List.map_nil, List.sum_cons, List.sum_nil]
  omega

theorem fits_info (w : World) : (Answer.cbor (.info (encodeGetInfo (getInfo D w)))).Fits := by
  have hversions : (encodeTstrArray (getInfo D w).versions).length ≤ 32 := by
    change (encodeTstrArray (_ ++ if D.u2fEnabled then [ascii "U2F_V2"] else [])).length ≤ 32
    cases D.u2fEnabled <;> decide
  have haaguid : (encodeBstr (getInfo D w).aaguid.bytes).length ≤ 25 :=
    (length_encodeBstr_le _).trans (by rw [Block.length_bytes])
  have hleft : (encodeUint (getInfo D w).remainingDiscoverable.toUInt64).length ≤ 9 :=
    (length_encodeUint _).le.trans (headSize_le _)
  -- each part is bounded by itself; the options by running through them
  have hoptions : ∀ pinSet token : Bool, (encodeMap
      [(encodeTstr (ascii "alwaysUv"), encodeBool false),
        (encodeTstr (ascii "clientPin"), encodeBool pinSet),
        (encodeTstr (ascii "credMgmt"), encodeBool false),
        (encodeTstr (ascii "makeCredUvNotRqd"), encodeBool false),
        (encodeTstr (ascii "pinUvAuthToken"), encodeBool token),
        (encodeTstr (ascii "plat"), encodeBool false),
        (encodeTstr (ascii "rk"), encodeBool true),
        (encodeTstr (ascii "up"), encodeBool true)]).length ≤ 100 := by
    decide +kernel
  have hkeys : (encodeUint 1).length + (encodeUint 2).length + (encodeUint 3).length +
      (encodeUint 4).length + (encodeUint 5).length + (encodeUint 6).length +
      (encodeUint 7).length + (encodeUint 8).length + (encodeUint 9).length +
      (encodeUint 10).length + (encodeUint 14).length + (encodeUint 20).length ≤ 20 := by
    decide
  have hfixed : (encodeTstrArray [ascii "hmac-secret"]).length + (encodeUint 1200).length +
      (encodeArrayHeader [2].length ++ List.flatMap encodeUint [2]).length +
      (encodeUint 32).length + (encodeTstrArray [ascii "usb"]).length +
      (encodeArrayHeader 1 ++ encodeMap
        [(encodeTstr (ascii "alg"), encodeInt (-7)),
          (encodeTstr (ascii "type"), encodeTstr (ascii "public-key"))]).length ≤ 100 := by
    decide +kernel
  have hext : (getInfo D w).extensions = [ascii "hmac-secret"] := rfl
  have hprotocols : (getInfo D w).pinProtocols = [2] := rfl
  have hopt := hoptions (getInfo D w).clientPin (getInfo D w).pinUvAuthToken
  change (encodeGetInfo (getInfo D w)).length < kMaxMessage
  rw [encodeGetInfo, hext, hprotocols, length_encodeMap (by simp)]
  simp only [List.isEmpty_cons, Bool.false_eq_true, if_false, List.map_append, List.sum_append,
    List.map_cons, List.map_nil, List.sum_cons, List.sum_nil, kMaxMessage]
  omega

section Pin

theorem fits_retries (n : UInt8) : (Answer.cbor (.retries n)).Fits := by
  have hn := (length_encodeUint n.toUInt64).le.trans (headSize_le _)
  have hkey : (encodeUint 3).length = 1 := by decide
  change (encodeMap _).length < kMaxMessage
  rw [length_encodeMap (by simp)]
  simp only [List.map_cons, List.map_nil, List.sum_cons, List.sum_nil, kMaxMessage]
  omega

theorem fits_keyAgreement (pub : P256PublicKey) : (Answer.cbor (.keyAgreement pub)).Fits := by
  have hpub : (encodeCoseEcdh pub).length ≤ 99 := length_encodeCoseKey_le (by decide) pub
  have hkey : (encodeUint 1).length = 1 := by decide
  change (encodeMap _).length < kMaxMessage
  rw [length_encodeMap (by simp)]
  simp only [List.map_cons, List.map_nil, List.sum_cons, List.sum_nil, kMaxMessage]
  omega

theorem fits_pinToken {enc : Bytes} (h : enc.length ≤ 48) : (Answer.cbor (.pinToken enc)).Fits := by
  have henc := length_encodeBstr_le enc
  have hkey : (encodeUint 2).length = 1 := by decide
  change (encodeMap _).length < kMaxMessage
  rw [length_encodeMap (by simp)]
  simp only [List.map_cons, List.map_nil, List.sum_cons, List.sum_nil, kMaxMessage]
  omega

open PinManager in
theorem handle_fits (hsized : D.provider.Sized) (body : Bytes) :
    Returns (handle D body) fun r => (Answer.cbor r).Fits := by
  have hempty : (Answer.cbor .empty).Fits := Nat.zero_lt_succ _
  have htoken : ∀ key enc perms rpId,
      Returns (getToken D key enc perms rpId) fun r => (Answer.cbor r).Fits := by
    intro key enc perms rpId
    refine Returns.bind_right fun ss => Returns.bind_right fun _ => Returns.bind_right fun t => ?_
    refine Returns.bind_right fun _ =>
      (pin2Encrypt_length hsized ss (by rw [t.length_bytes])).attempt.bind fun x hx => ?_
    rcases x with e | enc
    · exact Returns.bind_right fun _ => Returns.throw _
    · exact Returns.pure (fits_pinToken (by rw [hx enc rfl, t.length_bytes]))
  refine Returns.bind_right fun q => dispatch_induction
    (P := fun m => Returns m fun r => (Answer.cbor r).Fits)
    (fun _ => Returns.throw _) (Returns.gets fun _ => fits_retries _)
    (Returns.bind_right fun ka => ?_) (fun _ _ _ => ?_) (fun _ _ _ _ => ?_)
    (fun _ _ => htoken _ _ _ _) (fun _ _ _ _ => ?_) q
  · rcases ka with _ | ka
    · exact Returns.throw _
    · exact Returns.pure (fits_keyAgreement _)
  · exact Returns.bind_right fun _ => Returns.bind_right fun _ => Returns.bind_right fun _ =>
      Returns.pure hempty
  · exact Returns.bind_right fun _ => Returns.bind_right fun _ => Returns.bind_right fun _ =>
      Returns.bind_right fun _ => Returns.pure hempty
  · exact Returns.bind_right fun _ => Returns.bind_right fun _ => Returns.bind_right fun _ =>
      htoken _ _ _ _

end Pin

section Signed

variable {b : World}

theorem length_attestedData_le (aaguid : Block 16) (credId : Block 32) (pub : P256PublicKey) :
    (buildAttestedCredentialData aaguid credId.bytes pub).length ≤ 149 := by
  have hpub : (encodeCoseP256 pub).length ≤ 99 := length_encodeCoseKey_le (by decide) pub
  simp only [buildAttestedCredentialData, List.length_append, Block.length_bytes, List.length_cons,
    List.length_nil]
  omega

theorem fits_attestation {a : AuthData} {sig : Bytes} (ha : a.bytes.length ≤ 300)
    (hsig : sig.length ≤ 72) : (Answer.cbor (.attestation a sig)).Fits := by
  have hdata := length_encodeBstr_le a.bytes
  have hbstr := length_encodeBstr_le sig
  have hkeys : (encodeUint 1).length + (encodeUint 2).length + (encodeUint 3).length = 3 ∧
      (encodeTstr (ascii "packed")).length = 7 ∧ (encodeTstr (ascii "alg")).length = 4 ∧
      (encodeInt (-7)).length = 1 ∧ (encodeTstr (ascii "sig")).length = 4 := by decide
  change (encodeMap _).length < kMaxMessage
  rw [length_encodeMap (by simp)]
  simp only [List.map_cons, List.map_nil, List.sum_cons, List.sum_nil, kMaxMessage]
  rw [length_encodeMap (by simp)]
  simp only [List.map_cons, List.map_nil, List.sum_cons, List.sum_nil]
  omega

theorem attest_fits (hshort : b.env.SignsShort) (q : MakeCredentialRequest) (uv : Bool)
    (key : SigningKey) (c : Credential) : (attest D q uv key c).Run b
      (fun r _ => (Answer.cbor r).Fits) (fun _ _ => True) fun _ => True := by
  refine run_bind.mpr ((signDer_short hshort _ _).weaken fun sig _ hsig => ?_)
  refine fits_attestation ?_ hsig
  have hattested := length_attestedData_le D.aaguid c.credId c.pub
  have hext : (encodeMap [(encodeTstr (ascii "hmac-secret"), encodeBool true)]).length = 14 := by
    decide
  simp only [AuthData.bytes, List.length_append, Block.length_bytes, List.length_cons,
    List.length_nil, be32]
  split
  · omega
  · rw [List.length_nil]
    omega

/-- The answers a command gets are among those the call began with. -/
theorem run_after {ε α β : Type} {m : Cmd ε α} {f : α → Cmd ε β} {V : β → Prop}
    (hm : Guarantees onward m) (hshort : b.env.SignsShort)
    (hf : ∀ a w', w'.env.SignsShort →
      (f a).Run w' (fun r _ => V r) (fun _ _ => True) fun _ => True) :
    (m >>= f).Run b (fun r _ => V r) (fun _ _ => True) fun _ => True := by
  refine run_bind.mpr ((hm.run b).onReturn ?_)
  rintro a w' ⟨hlater, -⟩
  exact hf a w' (hshort.later hlater)

theorem cmdMakeCredential_fits (hshort : b.env.SignsShort) (body : Bytes) :
    (cmdMakeCredential D body).Run b (fun r _ => (Answer.cbor r).Fits) (fun _ _ => True)
      fun _ => True := by
  refine run_after (onward_askOps.makeCredentialChecks body) hshort fun x w₁ h₁ => ?_
  refine run_after (onward_askOps.createRow _) h₁ fun kc w₂ h₂ => ?_
  refine run_after (Guarantees.gets _) h₂ fun s w₃ h₃ => ?_
  refine run_after (Guarantees.forEach onward_askOps.replaceRow _) h₃ fun _ w₄ h₄ => ?_
  exact run_after (onward_askOps.storeRow _) h₄ fun _ w₅ h₅ => attest_fits h₅ _ _ _ _

theorem fits_registered {pub : P256PublicKey} {keyHandle : Block 32} {certDer sig : Bytes}
    (hcert : certDer.length ≤ 1024) (hsig : sig.length ≤ 72) :
    (Answer.u2f (.registered pub keyHandle certDer sig)).Fits := by
  simp only [Answer.Fits, U2fReply.encode, respond, uncompressed, List.length_append,
    Block.length_bytes, List.length_cons, List.length_nil, kMaxMessage]
  omega

theorem fits_signed {presence : UInt8} {count : UInt32} {sig : Bytes} (hsig : sig.length ≤ 72) :
    (Answer.u2f (.signed presence count sig)).Fits := by
  simp only [Answer.Fits, U2fReply.encode, respond, be32, List.length_append, List.length_cons,
    List.length_nil, kMaxMessage]
  omega

theorem registerWith_fits (hshort : b.env.SignsShort) (challenge application : Block 32)
    (key : SigningKey) {cert : Bytes} (hcert : cert.length ≤ 1024) :
    (registerWith D challenge application key cert).Run b (fun r _ => (Answer.u2f r).Fits)
      (fun _ _ => True) fun _ => True := by
  refine run_after (onward_askOps.createRow _) hshort fun kc w₁ h₁ => ?_
  refine run_bind.mpr ((signDer_short h₁ _ _).weaken fun sig w₂ hsig => ?_)
  refine run_bind.mpr (run_onReturn.mpr fun _ _ _ => ?_)
  exact fits_registered hcert hsig

theorem u2fRegister_fits (hsized : D.provider.Sized) (hcerts : CertsShort b)
    (hshort : b.env.SignsShort) (data : Bytes) :
    (u2fRegister D data).Run b (fun r _ => (Answer.u2f r).Fits) (fun _ _ => True)
      fun _ => True := by
  refine run_bind.mpr (run_require.mpr ⟨fun _ => ?_, fun _ => trivial⟩)
  refine run_bind.mpr ((((CertsShort.pieces hsized).toCheckOps.confirmUp _ _ _ _).run b |>.and
    ((onward_askOps.confirmUp _ _ _ _).run b)).onReturn ?_)
  rintro d w₁ ⟨hcerts₁, hlater₁, -⟩
  refine run_bind.mpr (run_require.mpr ⟨fun _ => run_orFail.mpr ?_, fun _ => trivial⟩)
  refine run_bind.mpr (run_gets.mpr (run_bind.mpr (run_require.mpr
    ⟨fun _ => ?_, fun _ => trivial⟩)))
  refine run_bind.mpr (((CertsShort.run_attestationMaterial hsized (hcerts₁ hcerts)).and
    ((onward_askOps.attestationMaterial (D := D)).run w₁)).onReturn ?_)
  rintro ⟨key, cert⟩ w₂ ⟨⟨hcert, -⟩, hlater₂, -⟩
  exact registerWith_fits (hshort.later (hlater₁.trans hlater₂)) _ _ _ hcert

theorem u2fAuthenticate_fits (hshort : b.env.SignsShort) (p1 : UInt8) (data : Bytes) :
    (u2fAuthenticate D p1 data).Run b (fun r _ => (Answer.u2f r).Fits) (fun _ _ => True)
      fun _ => True := by
  -- the response is the same size whether the presence was enforced or not
  have hsign : ∀ (w : World) cred challenge application enforce, w.env.SignsShort →
      (signChallenge D cred challenge application enforce).Run w (fun r _ => (Answer.u2f r).Fits)
        (fun _ _ => True) fun _ => True := by
    intro w cred challenge application enforce hw
    refine run_after (onward_askOps.quiet (quiet_loadKey cred)) hw fun key w₁ h₁ => ?_
    refine run_bind.mpr ((signDer_short h₁ _ _).weaken fun sig w₂ hsig => ?_)
    refine run_ite.mpr ⟨fun _ => ?_, fun _ => fits_signed hsig⟩
    refine run_bind.mpr (run_onReturn.mpr fun _ _ _ => ?_)
    refine run_bind.mpr (run_onReturn.mpr fun _ _ _ => ?_)
    exact fits_signed hsig
  refine run_bind.mpr (run_require.mpr ⟨fun _ => ?_, fun _ => trivial⟩)
  refine run_bind.mpr (run_require.mpr ⟨fun _ => ?_, fun _ => trivial⟩)
  refine run_bind.mpr (run_require.mpr ⟨fun _ => ?_, fun _ => trivial⟩)
  refine run_bind.mpr (run_gets.mpr ?_)
  dsimp only
  split
  · trivial
  refine run_bind.mpr (run_require.mpr ⟨fun _ => ?_, fun _ => trivial⟩)
  refine run_ite.mpr ⟨fun _ => ?_, fun _ => run_orFail.mpr (hsign b _ _ _ _ hshort)⟩
  refine run_after (onward_askOps.confirmUp _ _ _ _) hshort fun d w₁ h₁ => ?_
  refine run_bind.mpr (run_require.mpr ⟨fun _ => ?_, fun _ => trivial⟩)
  exact run_orFail.mpr (hsign w₁ _ _ _ _ h₁)

end Signed

/-! ### The room for the user entity -/

/-- What is left of the 7609 bytes of a message for the user entity, the extension output and
the number of credentials: an assertion with a user entity and a signature of 72 bytes has 173
other bytes. -/
def assertionRoom : ℕ := 7436

/-- The user entity of the row, if it has one, leaves room for the rest of an assertion with
user verification. -/
def Credential.Fits (c : Credential) (flags : UInt8) (ext : ExtensionsIn) (number : Option ℕ) :
    Prop :=
  c.userId ≠ [] →
    (encodeUser c.user true).length + extensionSize flags ext + numberSize number ≤ assertionRoom

/-- A getAssertion with a pinUvAuthParam, and a getNextAssertion of a list that was opened with
user verification, come to a row whose user entity leaves room for the rest of the response. -/
structure World.Roomy (D : Device) (w : World) (c : Call) : Prop where
  first : ∀ body q first rest, c = .cbor (0x02 :: body) → getAssertionRequest body = .ok q →
    q.pinUvAuthParam ≠ none →
    sortCandidates (candidates w.store (D.provider.sha256 q.rpId) q.allowList) = first :: rest →
    first.Fits (assertionFlags true q.up) q.ext (some (rest.length + 1))
  next : ∀ l st cred rest, c = .cbor (0x08 :: l) → w.next = some st →
    st.remaining = cred :: rest → st.flags &&& kFlagUv ≠ 0 → cred.Fits st.flags st.ext none

section Assertions

variable {b : World} {cred : Credential} {flags : UInt8} {ext : ExtensionsIn} {number : Option ℕ}
  {r : Reply}

/-- Without user verification, the user entity is its id. -/
theorem length_encodeUser_id {u : UserEntity} (h : u.id.length ≤ 64) :
    (encodeUser u false).length ≤ 77 := by
  have hid := length_encodeBstr_le u.id
  have hkey : (encodeTstr (ascii "id")).length = 3 := by decide
  simp only [encodeUser, Bool.false_and, Bool.false_eq_true, if_false, List.append_nil]
  rw [length_encodeMap (by simp)]
  simp only [List.map_cons, List.map_nil, List.sum_cons, List.sum_nil]
  omega

/-- The size of an assertion is known up to the signature. -/
theorem AssertionOf.length (h : AssertionOf cred flags ext number r) :
    ∃ a sig, r = .assertion cred.credId a sig cred.user number ∧
      (a.uv ↔ flags &&& kFlagUv ≠ 0) ∧ sig.length ≤ 72 ∧ extensionSize flags ext ≤ 95 ∧
      r.encode.length = 97 + extensionSize flags ext + headSize sig.length + sig.length +
        (if cred.userId.isEmpty then 0 else 1 + (encodeUser cred.user a.uv).length) +
        numberSize number := by
  obtain ⟨a, sig, rfl, huv, hbytes, hext, hsig⟩ := h
  refine ⟨a, sig, rfl, huv, hsig, hext, ?_⟩
  have hhead : headSize a.bytes.length = 2 := by
    rw [headSize, if_neg (by omega), if_pos (by omega)]
  rw [length_encode_assertion, length_encodeBstr (by omega), length_encodeBstr (by omega), hhead,
    hbytes]
  change 58 + (2 + (37 + extensionSize flags ext)) + (headSize sig.length + sig.length) +
    (if cred.userId.isEmpty then 0 else _) + numberSize number = _
  omega

theorem AssertionOf.uv_iff {credId : Block 32} {a : AuthData} {sig : Bytes} {user : UserEntity}
    {n : Option ℕ} (h : AssertionOf cred flags ext number (.assertion credId a sig user n)) :
    a.uv ↔ flags &&& kFlagUv ≠ 0 := by
  obtain ⟨a', sig', heq, huv, -⟩ := h
  obtain ⟨-, rfl, -⟩ := Reply.assertion.inj heq
  exact huv

/-- **An assertion fits** when it is made without user verification, or when the user entity
leaves room. -/
theorem AssertionOf.fits (h : AssertionOf cred flags ext number r) (hid : cred.userId.length ≤ 64)
    (hroom : flags &&& kFlagUv ≠ 0 → cred.Fits flags ext number) : (Answer.cbor r).Fits := by
  obtain ⟨a, sig, -, huv, hsig, hext, hlen⟩ := h.length
  have hnumber := numberSize_le number
  have hhead : headSize sig.length ≤ 2 := (headSize_mono hsig).trans (by decide)
  rw [Answer.fits_cbor, hlen]
  have hmax : kMaxMessage = 7609 := rfl
  by_cases hempty : cred.userId.isEmpty
  · rw [if_pos hempty]
    omega
  rw [if_neg hempty]
  -- the names are sent only with UV; without it the id alone always fits
  by_cases ha : a.uv
  · have hfits := hroom (huv.mp ha) fun hnil => hempty (List.isEmpty_iff.mpr hnil)
    rw [assertionRoom] at hfits
    rw [decide_eq_true ha]
    omega
  · have huser := length_encodeUser_id (u := cred.user) hid
    rw [decide_eq_false ha]
    omega

/-- **An assertion with user verification and the longest signature fits only** when the user
entity leaves room. -/
theorem AssertionOf.fits_iff {credId : Block 32} {a : AuthData} {sig : Bytes} {user : UserEntity}
    {n : Option ℕ} (h : AssertionOf cred flags ext number (.assertion credId a sig user n))
    (ha : a.uv) (hsig : sig.length = 72) :
    (Answer.cbor (.assertion credId a sig user n)).Fits ↔ cred.Fits flags ext number := by
  obtain ⟨a', sig', heq, -, -, hext, hlen⟩ := h.length
  obtain ⟨-, rfl, rfl, -, -⟩ := Reply.assertion.inj heq
  have hhead : headSize 72 = 2 := by decide
  have hmax : kMaxMessage = 7609 := rfl
  rw [Answer.fits_cbor, hlen, hsig, hhead, decide_eq_true ha, hmax, Credential.Fits, assertionRoom]
  have hnumber := numberSize_le number
  by_cases hempty : cred.userId = []
  · rw [if_pos (List.isEmpty_iff.mpr hempty)]
    exact ⟨fun _ hne => absurd hempty hne, fun _ => by omega⟩
  · rw [if_neg fun h => hempty (List.isEmpty_iff.mp h)]
    constructor
    · intro hlt _
      omega
    · intro hfits
      have := hfits hempty
      omega

theorem checkPinAuth_param (param : Option Bytes) (protocol : Option UInt64)
    (clientDataHash : Block 32) (permission : UInt8) (rpId : Bytes) (rpIdHash : Block 32)
    (isMake : Bool) :
    Returns (checkPinAuth D param protocol clientDataHash permission rpId rpIdHash isMake)
      fun uv => uv = true → param ≠ none := by
  rcases param with _ | param
  · exact Returns.bind_right fun _ => Returns.bind_right fun _ =>
      Returns.pure fun h => absurd h Bool.false_ne_true
  · exact fun s => run_onReturn.mpr fun _ _ _ _ => Option.some_ne_none param

/-- The reply is an assertion for the first candidate of the request. -/
def FirstOf (D : Device) (s : Store) (body : Bytes) (r : Reply) : Prop :=
  ∃ q first rest uv, getAssertionRequest body = .ok q ∧
    sortCandidates (candidates s (D.provider.sha256 q.rpId) q.allowList) = first :: rest ∧
    (uv = true → q.pinUvAuthParam ≠ none) ∧
    AssertionOf first (assertionFlags uv q.up) q.ext (some (rest.length + 1)) r

theorem cmdGetAssertion_firstOf (hsized : D.provider.Sized) (hshort : b.env.SignsShort)
    (body : Bytes) : (cmdGetAssertion D body).Run b (fun r _ => FirstOf D b.store body r)
      (fun _ _ => True) fun _ => True := by
  refine run_bind.mpr (run_modify.mpr (run_bind.mpr
    (run_ofExcept.mpr ⟨fun q hq => ?_, fun _ _ => trivial⟩)))
  refine run_bind.mpr (run_gets.mpr (run_bind.mpr ?_))
  refine (((onward_askOps.checkPinAuth _ _ _ _ _ _ _).run _).and
    (checkPinAuth_param _ _ _ _ _ _ _ _)).onReturn ?_
  rintro uv w₁ ⟨⟨hlater₁, -⟩, hparam⟩
  dsimp only
  rcases hsort : sortCandidates (candidates b.store (D.provider.sha256 q.rpId) q.allowList) with
    _ | ⟨first, rest⟩
  · trivial
  refine run_assertFirst (M := fun w₂ => b.env.Later w₂.env) ?_
    (fun w₂ w₃ hlater₂ hopened => ?_) fun _ _ _ => trivial
  · refine ((onward_askOps.confirmAssertion q _ first).run w₁).onReturn ?_
    rintro _ w₂ ⟨hlater₂, -⟩
    exact hlater₁.trans hlater₂
  · have hlater₃ : b.env.Later w₃.env := by
      rcases hopened with ⟨-, rfl⟩ | ⟨-, e, he, rfl⟩
      · exact hlater₂
      · exact hlater₂.trans he
    exact (buildAssertion_assertionOf hsized (hshort.later hlater₃) _ _ _ _ _ _ _).weaken
      fun r _ hr => ⟨q, first, rest, uv, hq, hsort, hparam, hr⟩

/-- The reply is an assertion for the next row of the list. -/
def NextOf (next : Option AssertionState) (r : Reply) : Prop :=
  ∃ st cred rest, next = some st ∧ st.remaining = cred :: rest ∧
    AssertionOf cred st.flags st.ext none r

theorem cmdGetNextAssertion_nextOf (hsized : D.provider.Sized) (hshort : b.env.SignsShort) :
    (cmdGetNextAssertion D).Run b (fun r _ => NextOf b.next r) (fun _ _ => True)
      fun _ => True := by
  refine run_cmdGetNextAssertion (fun _ => trivial) (fun st cred rest e hst hrem _ he => ?_)
    fun _ => trivial
  refine (buildAssertion_assertionOf hsized (w := { b.withEnv e with
    next := some { st with remaining := rest } }) (hshort.later he) _ _ _ _ _ _ _).mono ?_
    (fun _ _ _ => ⟨trivial, trivial⟩) fun _ _ => trivial
  exact fun r _ hr => ⟨⟨st, cred, rest, hst, hrem, hr⟩, st, cred, rest, hst, hrem, hr⟩

end Assertions

/-! ### The calls -/

/-- What a call answers: an assertion, or something short. -/
def SizedAnswer (D : Device) (b : World) (c : Call) (a : Answer) : Prop :=
  (a.Fits ∧ (∀ body, c ≠ .cbor (0x02 :: body)) ∧ ∀ l, c ≠ .cbor (0x08 :: l)) ∨
    (∃ body r, c = .cbor (0x02 :: body) ∧ a = .cbor r ∧ FirstOf D b.store body r) ∨
    ∃ l r, c = .cbor (0x08 :: l) ∧ a = .cbor r ∧ NextOf b.next r

section Calls

variable {b : World}

theorem handleCbor_sized (hsized : D.provider.Sized) (hshort : b.env.SignsShort)
    (request : Bytes) : (handleCbor D request).Run b
      (fun r _ => SizedAnswer D b (.cbor request) (.cbor r)) (fun _ _ => True) fun _ => True := by
  rcases request with _ | ⟨cmd, body⟩
  · trivial
  refine run_ite.mpr ⟨fun h8 => ?_, fun h8 => run_bind.mpr (run_modify.mpr ?_)⟩
  · subst h8
    exact (cmdGetNextAssertion_nextOf hsized hshort).weaken fun r _ hr =>
      .inr (.inr ⟨body, r, rfl, rfl, hr⟩)
  by_cases h2 : cmd = 0x02
  · subst h2
    exact (cmdGetAssertion_firstOf (b := { b with next := none }) hsized hshort body).weaken
      fun r _ hr => .inr (.inl ⟨body, r, rfl, rfl, hr⟩)
  -- every other command has a short answer
  have hother : ∀ r : Reply, (Answer.cbor r).Fits →
      SizedAnswer D b (.cbor (cmd :: body)) (.cbor r) := fun r hr =>
    .inl ⟨hr, fun l h => h2 (List.cons.inj (Call.cbor.inj h)).1,
      fun l h => h8 (List.cons.inj (Call.cbor.inj h)).1⟩
  have hempty : (Answer.cbor .empty).Fits := Nat.zero_lt_succ _
  refine run_ite.mpr ⟨fun _ => hother _ (fits_info _), fun _ => run_ite.mpr ⟨fun _ => ?_,
    fun _ => run_ite.mpr ⟨fun h => absurd h h2, fun _ => run_ite.mpr ⟨fun _ => ?_, fun _ =>
      run_ite.mpr ⟨fun _ => ?_, fun _ => run_ite.mpr ⟨fun _ => ?_, fun _ => trivial⟩⟩⟩⟩⟩⟩
  · exact (cmdMakeCredential_fits (b := { b with next := none }) hshort body).weaken
      fun r _ hr => hother r hr
  · exact (Returns.bind_right fun _ => Returns.bind_right fun _ => Returns.pure rfl :
      Returns (cmdReset D) (· = .empty)) _ |>.weaken fun r _ hr => hother r (hr ▸ hempty)
  · exact (handle_fits hsized body _).weaken fun r _ hr => hother r hr
  · exact (Returns.bind_right fun _ => Returns.pure rfl :
      Returns cmdAuthenticatorSelection (· = .empty)) _ |>.weaken fun r _ hr =>
        hother r (hr ▸ hempty)

theorem handleU2f_sized (hsized : D.provider.Sized) (hcerts : CertsShort b)
    (hshort : b.env.SignsShort) (apdu : Bytes) : (handleU2f D apdu).Run b
      (fun r _ => (Answer.u2f r).Fits) (fun _ _ => True) fun _ => True := by
  refine run_bind.mpr (run_require.mpr ⟨fun _ => ?_, fun _ => trivial⟩)
  split
  · trivial
  refine run_bind.mpr (run_require.mpr ⟨fun _ => ?_, fun _ => trivial⟩)
  refine run_ite.mpr ⟨fun _ => ?_, fun _ => run_ite.mpr ⟨fun _ => ?_, fun _ =>
    run_ite.mpr ⟨fun _ => ?_, fun _ => trivial⟩⟩⟩
  · change (Answer.u2f .version).Fits
    decide
  · exact u2fRegister_fits hsized hcerts hshort _
  · exact u2fAuthenticate_fits hshort _ _

/-- **What every call answers.** -/
theorem answer_sized (hsized : D.provider.Sized) (hcerts : CertsShort b)
    (hshort : b.env.SignsShort) (c : Call) : (answer D c).Run b
      (fun a _ => SizedAnswer D b c a) (fun _ _ => True) fun _ => True := by
  have hfinish : ∀ {ε α : Type} {m : Cmd ε α} {f : α → Answer} {r : ε → Refusal},
      m.Run b (fun a _ => SizedAnswer D b c (f a)) (fun _ _ => True) (fun _ => True) →
      (finish m f r).Run b (fun a _ => SizedAnswer D b c a) (fun _ _ => True) fun _ => True :=
    fun h => run_finish (h.onReturn (fun _ _ ha _ => ⟨ha, trivial⟩))
  have hdone : ∀ {ε α : Type} {m : Cmd ε α} {r : ε → Refusal}, (∀ l, c ≠ .cbor l) →
      (finish m (fun _ => .done) r).Run b (fun a _ => SizedAnswer D b c a) (fun _ _ => True)
        fun _ => True := fun hc => hfinish (run_onReturn.mpr fun _ _ _ =>
          .inl ⟨trivial, fun _ => hc _, fun _ => hc _⟩)
  cases c with
  | cbor request => exact hfinish (handleCbor_sized hsized hshort request)
  | u2f apdu =>
    exact hfinish ((handleU2f_sized hsized hcerts hshort apdu).weaken fun _ _ hr =>
      .inl ⟨hr, (fun _ h => by cases h), (fun _ h => by cases h)⟩)
  | ctlReset => exact hdone fun _ h => by cases h
  | ctlSetPin pin => exact hdone fun _ h => by cases h
  | ctlDelete credId => exact hdone fun _ h => by cases h
  | setSerial serial => exact hdone fun _ h => by cases h
  | tpmParams => exact hdone fun _ h => by cases h

end Calls

/-! ### Runs -/

/-- Every row of every run has a user id of at most 64 bytes. -/
theorem rowLaw_userId (D : Device) : RowLaw D fun _ c => c.userId.length ≤ 64 where
  grow _ h := h
  used _ _ h := h
  new l template m credId now secret wrapped _ hvalid := by
    by_contra hlong
    unfold Store.validate at hvalid
    rw [if_pos (Nat.lt_of_not_le hlong)] at hvalid
    split at hvalid
    · cases hvalid
    · cases hvalid

theorem payload_fits {a : Answer} {p : Bytes} (h : payload (.ok a) = some p) :
    a.Fits ↔ p.length ≤ kMaxMessage := by
  cases a with
  | cbor r =>
    obtain rfl := Option.some.inj h
    exact Iff.rfl
  | u2f r =>
    obtain rfl := Option.some.inj h
    exact Iff.rfl
  | done => cases h

theorem payload_refusal {r : Refusal} {p : Bytes}
    (h : payload (.err r : Outcome Refusal Answer) = some p) : p.length ≤ 2 := by
  cases r with
  | status s =>
    obtain rfl := Option.some.inj h
    exact Nat.le_succ 1
  | sw w =>
    obtain rfl := Option.some.inj h
    exact Nat.le_refl 2

theorem frame_eq_nil_iff {cid : UInt32} {cmd : UInt8} {p : Bytes} :
    frame ⟨cid, cmd, p⟩ = [] ↔ kMaxMessage < p.length := by
  rw [frame]
  by_cases h : p.length > kMaxMessage
  · rw [if_pos h]
    exact ⟨fun _ => h, fun _ => rfl⟩
  · rw [if_neg h]
    exact ⟨fun hnil => (by cases hnil), fun hlt => absurd hlt h⟩

section Runs

variable {w : World} {c : Call} {e : Env} {a : Answer}

/-- **One call**: the answer fits when there is room. -/
theorem SizedAnswer.fits (h : SizedAnswer D (w.begin c e) c a)
    (hrows : EveryRow (fun _ c => c.userId.length ≤ 64) w) (hroomy : w.Roomy D c) : a.Fits := by
  rcases h with ⟨hfits, -⟩ | ⟨body, r, rfl, rfl, q, first, rest, uv, hq, hsort, hparam, hr⟩ |
    ⟨l, r, rfl, rfl, st, cred, rest, hst, hrem, hr⟩
  · exact hfits
  · have hmem : first ∈ w.store.creds :=
      mem_of_mem_sortCandidates (hsort ▸ List.mem_cons_self)
    refine hr.fits (hrows.1.1 first hmem) fun huv => ?_
    obtain rfl := (assertionFlags_uv uv q.up).mp huv
    exact hroomy.first body q first rest rfl hq (hparam rfl) hsort
  · refine hr.fits (hrows.1.2 st hst cred (hrem ▸ List.mem_cons_self)) fun huv => ?_
    exact hroomy.next l st cred rest rfl hst hrem huv

/-- And an assertion with user verification and the longest signature only then. -/
theorem SizedAnswer.roomy {credId : Block 32} {authData : AuthData} {sig : Bytes}
    {user : UserEntity} {n : Option ℕ}
    (h : SizedAnswer D (w.begin c e) c (.cbor (.assertion credId authData sig user n)))
    (huv : authData.uv) (hsig : sig.length = 72)
    (hfits : (Answer.cbor (.assertion credId authData sig user n)).Fits) : w.Roomy D c := by
  rcases h with ⟨-, hget, hnext⟩ | ⟨body, r, rfl, hr', q, first, rest, uv, hq, hsort, -, hr⟩ |
    ⟨l, r, rfl, hr', st, cred, rest, hst, hrem, hr⟩
  · exact ⟨fun body _ _ _ hc => absurd hc (hget body), fun l _ _ _ hc => absurd hc (hnext l)⟩
  · obtain rfl := Answer.cbor.inj hr'
    have hroom := (hr.fits_iff huv hsig).mp hfits
    -- UV is in the flags only if the parameter was verified
    obtain rfl : uv = true := (assertionFlags_uv uv q.up).mp ((hr.uv_iff).mp huv)
    refine ⟨fun body' q' first' rest' hc hq' _ hsort' => ?_, fun _ _ _ _ hc => ?_⟩
    · obtain ⟨-, rfl⟩ := List.cons.inj (Call.cbor.inj hc)
      obtain rfl := Except.ok.inj (hq.symm.trans hq')
      obtain ⟨rfl, rfl⟩ := List.cons.inj (hsort.symm.trans hsort')
      exact hroom
    · exact absurd (List.cons.inj (Call.cbor.inj hc)).1 (by decide)
  · obtain rfl := Answer.cbor.inj hr'
    have hroom := (hr.fits_iff huv hsig).mp hfits
    refine ⟨fun _ _ _ _ hc => ?_, fun l' st' cred' rest' hc hst' hrem' _ => ?_⟩
    · exact absurd (List.cons.inj (Call.cbor.inj hc)).1 (by decide)
    · obtain rfl := Option.some.inj (hst.symm.trans hst')
      obtain ⟨rfl, rfl⟩ := List.cons.inj (hrem.symm.trans hrem')
      exact hroom

/-- **Responses that fit.** In every state a run reaches, the response to a call fits, and is
framed, if the user entity it may have to echo leaves room for the rest; a response with user
verification and a signature of 72 bytes fits only then, and is otherwise lost. -/
theorem response_fits (hsized : D.provider.Sized) (env : Env) (steps : List Step)
    (hshort : e.SignsShort) {p : Bytes}
    (hp : payload (answer D c (((World.fresh env).run D steps).begin c e)).1 = some p) :
    (((World.fresh env).run D steps).Roomy D c →
      p.length ≤ kMaxMessage ∧ ∀ cid cmd, frame ⟨cid, cmd, p⟩ ≠ []) ∧
    ∀ credId authData sig user n,
      (answer D c (((World.fresh env).run D steps).begin c e)).1 =
        .ok (.cbor (.assertion credId authData sig user n)) → authData.uv → sig.length = 72 →
      ¬ ((World.fresh env).run D steps).Roomy D c →
        kMaxMessage < p.length ∧ ∀ cid cmd, frame ⟨cid, cmd, p⟩ = [] := by
  set w := (World.fresh env).run D steps
  have hrows := (rowLaw_userId D).run env steps
  -- every certificate in the store was issued by the provider
  have hcerts : CertsShort (w.begin c e) := (CertsShort.run hsized env steps).congr rfl rfl
  have hsizes := answer_sized (b := w.begin c e) hsized hcerts hshort c
  rcases hans : answer D c (w.begin c e) with ⟨a | r | _, w'⟩
  · rw [hans] at hp
    have hsize := hsizes.ok hans
    have hfits := payload_fits hp
    refine ⟨fun hroomy => ?_, fun credId authData sig user n heq huv hsig hcramped => ?_⟩
    · have hle := hfits.mp (hsize.fits hrows hroomy)
      exact ⟨hle, fun cid cmd hnil => absurd (frame_eq_nil_iff.mp hnil) (Nat.not_lt.mpr hle)⟩
    · obtain rfl := Outcome.ok.inj heq
      have hlt : kMaxMessage < p.length := Nat.lt_of_not_le fun hle =>
        hcramped (hsize.roomy huv hsig (hfits.mpr hle))
      exact ⟨hlt, fun cid cmd => frame_eq_nil_iff.mpr hlt⟩
  · rw [hans] at hp
    have hle : p.length ≤ kMaxMessage := (payload_refusal hp).trans (by decide)
    refine ⟨fun _ => ⟨hle, fun cid cmd hnil => absurd (frame_eq_nil_iff.mp hnil)
      (Nat.not_lt.mpr hle)⟩, fun _ _ _ _ _ heq => by cases heq⟩
  · rw [hans] at hp
    cases hp

end Runs

/-! ### A name that does not fit -/

/-- A makeCredential with a user name. -/
def Call.makeCredentialNamed (rpId userId name : Bytes) : Call :=
  .cbor <| 0x01 :: encodeMap
    [(encodeInt 1, encodeBstr (List.replicate 32 0)),
      (encodeInt 2, encodeMap [(encodeTstr (ascii "id"), encodeTstr rpId)]),
      (encodeInt 3, encodeMap
        [(encodeTstr (ascii "id"), encodeBstr userId),
          (encodeTstr (ascii "name"), encodeTstr name)]),
      (encodeInt 4, encodeArrayHeader 1 ++ encodeMap
        [(encodeTstr (ascii "alg"), encodeInt (-7)),
          (encodeTstr (ascii "type"), encodeTstr (ascii "public-key"))])]

/-- The parameters of a getAssertion with a pinUvAuthParam. -/
def Call.getAssertionWithBody (rpId param : Bytes) : Bytes :=
  encodeMap
    [(encodeInt 1, encodeTstr rpId), (encodeInt 2, encodeBstr (List.replicate 32 0)),
      (encodeInt 6, encodeBstr param), (encodeInt 7, encodeInt 2)]

/-- A getAssertion with a pinUvAuthParam. -/
def Call.getAssertionWith (rpId param : Bytes) : Call :=
  .cbor (0x02 :: getAssertionWithBody rpId param)

/-- A calm environment with signatures of 72 bytes. -/
def Env.signing (b : UInt8) : Env :=
  { Env.calm b with sign := Stream'.const fun _ _ => some (List.replicate 72 b) }

/-- A user with this name is registered, and a token is issued. -/
def namedSteps (name : Bytes) : List Step :=
  .call (.makeCredentialNamed (ascii "a") [1] name) (.signing 7) :: tokenSteps

theorem Provider.sized_plain : Provider.plain.Sized where
  encrypt _ _ _ _ := rfl
  decrypt _ _ _ _ := rfl
  cert scalar _ cert h := by
    obtain rfl := Option.some.inj h
    rw [scalar.length_bytes]
    decide

theorem Env.signsShort_signing (b : UInt8) : (Env.signing b).SignsShort := by
  intro i key message sig h
  obtain rfl := Option.some.inj h
  exact List.length_replicate.le

/-- The request of `getAssertionWith`. -/
def GetAssertionRequest.verified : GetAssertionRequest where
  rpId := ascii "a"
  clientDataHash := Block.replicate 32 0
  allowList := none
  ext := {}
  options := {}
  pinUvAuthParam := some tokenParam
  pinUvAuthProtocol := some 2

/-- The response for a user with a short name fits. -/
theorem response_fits_shortName : ∃ p,
    payload (answer .plain (.getAssertionWith (ascii "a") tokenParam)
      (((World.fresh (.calm 0)).run .plain (namedSteps (ascii "al"))).begin
        (.getAssertionWith (ascii "a") tokenParam) (.signing 8))).1 = some p ∧
      p.length ≤ kMaxMessage ∧ ∀ cid cmd, frame ⟨cid, cmd, p⟩ ≠ [] := by
  have hq : getAssertionRequest (Call.getAssertionWithBody (ascii "a") tokenParam) =
      .ok .verified := by decide +kernel
  have hrows : ∀ c ∈ ((World.fresh (.calm 0)).run .plain (namedSteps (ascii "al"))).store.creds,
      (encodeUser c.user true).length ≤ 20 := by decide +kernel
  have hroomy : ((World.fresh (.calm 0)).run .plain (namedSteps (ascii "al"))).Roomy .plain
      (.getAssertionWith (ascii "a") tokenParam) := by
    refine ⟨fun body q first rest hc hq' _ hsort _ => ?_, fun _ _ _ _ hc => ?_⟩
    · obtain ⟨-, rfl⟩ := List.cons.inj (Call.cbor.inj hc)
      obtain rfl := Except.ok.inj (hq.symm.trans hq')
      have huser := hrows first (mem_of_mem_sortCandidates (hsort ▸ List.mem_cons_self))
      have hext : extensionSize (assertionFlags true GetAssertionRequest.verified.up)
        GetAssertionRequest.verified.ext = 0 := by decide
      have hnumber := numberSize_le (some (rest.length + 1))
      rw [hext, assertionRoom]
      omega
    · exact absurd (List.cons.inj (Call.cbor.inj hc)).1 (by decide)
  obtain ⟨p, hp⟩ := Option.isSome_iff_exists.mp (by decide +kernel :
    (payload (answer .plain (.getAssertionWith (ascii "a") tokenParam)
      (((World.fresh (.calm 0)).run .plain (namedSteps (ascii "al"))).begin
        (.getAssertionWith (ascii "a") tokenParam) (.signing 8))).1).isSome = true)
  exact ⟨p, hp, (response_fits Provider.sized_plain (.calm 0) (namedSteps (ascii "al"))
    (Env.signsShort_signing 8) hp).1 hroomy⟩

/-- The request of the step, if it comes over HID, fits one message. -/
def Step.Framable : Step → Prop
  | .call (.cbor request) _ => request.length ≤ kMaxMessage
  | .call (.u2f apdu) _ => apdu.length ≤ kMaxMessage
  | _ => True

instance : (s : Step) → Decidable s.Framable
  | .call (.cbor _) _ | .call (.u2f _) _ => inferInstanceAs (Decidable (_ ≤ _))
  | .call .ctlReset _ | .call (.ctlSetPin _) _ | .call (.ctlDelete _) _ | .call (.setSerial _) _
  | .call .tpmParams _ | .restart _ => .isTrue trivial

/-- The signatures in the step are short. -/
def Step.SignsShort : Step → Prop
  | .call _ e => e.SignsShort
  | .restart _ => True

theorem Env.signsShort_calm (b : UInt8) : (Env.calm b).SignsShort := by
  intro i key message sig h
  obtain rfl := Option.some.inj h
  exact List.length_singleton.le.trans (by decide)

/-- A name of 7450 bytes, which fits a makeCredential of 7533 bytes. -/
def longName : Bytes := List.replicate 7450 0x61

set_option maxRecDepth 20000 in
theorem length_payload_longName :
    ((payload (answer .plain (.getAssertionWith (ascii "a") tokenParam)
      (((World.fresh (.calm 0)).run .plain (namedSteps longName)).begin
        (.getAssertionWith (ascii "a") tokenParam) (.signing 8))).1).map List.length) =
      some 7637 := by
  decide +kernel

set_option maxRecDepth 20000 in
theorem framable_namedSteps_longName : ∀ s ∈ namedSteps longName ++
    [.call (.getAssertionWith (ascii "a") tokenParam) (.signing 8)], s.Framable := by
  decide +kernel

/-- The name of a user is echoed in a response that is too long, and lost. -/
theorem not_responses_fit : ¬ ∀ (D : Device) (env : Env) (steps : List Step) (c : Call) (e : Env)
    (p : Bytes), D.provider.Sized →
    (∀ s ∈ steps ++ [.call c e], s.Framable ∧ s.SignsShort) →
    payload (answer D c (((World.fresh env).run D steps).begin c e)).1 = some p →
      p.length ≤ kMaxMessage ∧ ∀ cid cmd, frame ⟨cid, cmd, p⟩ ≠ [] := by
  intro h
  obtain ⟨p, hp, hlen⟩ := Option.map_eq_some_iff.mp length_payload_longName
  have hfits := h .plain (.calm 0) (namedSteps longName) _ (.signing 8) p Provider.sized_plain
    (fun s hs => ⟨framable_namedSteps_longName s hs, ?_⟩) hp
  · rw [hlen] at hfits
    exact absurd hfits.1 (by decide)
  · simp only [namedSteps, tokenSteps, List.cons_append, List.nil_append, List.mem_cons,
      List.not_mem_nil, or_false] at hs
    rcases hs with rfl | rfl | rfl | rfl
    · exact Env.signsShort_signing 7
    · exact Env.signsShort_calm 1
    · exact Env.signsShort_calm 2
    · exact Env.signsShort_signing 8

end Swpasskey
