import Swpasskey.Ctap.Keys

/-!
# authenticatorGetAssertion and getNextAssertion

`cmd_get_assertion`, `cmd_get_next_assertion` and the assertion builder they share, with
the hmac-secret output. The rows of a getAssertion beyond the first are copied into
`next_state_`; getNextAssertion works from these copies, not from the store.
-/

namespace Swpasskey

open Proc Cbor

variable (D : Device)

/-! ### hmac-secret -/

/-- `backend_for`, as far as it decides whether there is one. -/
def backendAvailable (kind : BackendKind) : Bool := kind = .software || D.primaryKind = kind

/-- The HMAC of every salt under the selected credRandom, concatenated. -/
def hmacSalts (sel : Bytes) : List Bytes → Cmd Status Bytes
  | [] => pure []
  | salt :: salts => do
    let h ← hmacSha256 D.provider sel salt
    return h.bytes ++ (← hmacSalts sel salts)

/-- `hmac_secret_output`. -/
def hmacSecretOutput (cred : Credential) (ext : ExtensionsIn) (uv : Bool) : Cmd Status Bytes := do
  match ext.hmacKeyAgreement with
  | none => throw .missingParameter
  | some platformKey =>
    require (!ext.hmacSaltEnc.isEmpty && !ext.hmacSaltAuth.isEmpty) .missingParameter
    require (ext.hmacPinProtocol = 2) .invalidParameter
    let ss ← (PinManager.sharedSecretFor D platformKey).orFail .invalidParameter
    let mac ← (pin2Authenticate D.provider ss.hmacKey.bytes ext.hmacSaltEnc).orFail .extensionFirst
    require (consttimeEqual mac.bytes ext.hmacSaltAuth) .extensionFirst
    let salts ← (pin2Decrypt D.provider ss ext.hmacSaltEnc).orFail .invalidParameter
    require (salts.length = 32 || salts.length = 64) .invalidParameter
    require (!cred.credRandom.isEmpty) .unsupportedExtension
    require (backendAvailable D cred.backend) .invalidCredential
    let cr ← (unwrapSecret cred.backend cred.credRandom).orFail .other
    require (cr.length = 64) .other
    let sel := (cr.drop (if uv then 0 else 32)).take 32
    let chunks := if salts.length = 32 then [salts] else [salts.take 32, salts.drop 32]
    let out ← (hmacSalts D sel chunks).orFail .other
    (pin2Encrypt D.provider ss out).orFail .other

/-! ### One assertion -/

/-- The extensions of an assertion: the hmac-secret output, released only with user
presence. -/
def assertionExtensions (cred : Credential) (flags : UInt8) (ext : ExtensionsIn) :
    Cmd Status Bytes := do
  if ext.hmacSecretPresent && flags &&& kFlagUp ≠ 0 then
    let hs ← hmacSecretOutput D cred ext (flags &&& kFlagUv ≠ 0)
    return encodeMap [(encodeTstr (ascii "hmac-secret"), encodeBstr hs)]
  else return []

/-- The counter of an assertion. -/
def assertionCount (cred : Credential) (bumpCounter : Bool) : UInt32 :=
  if bumpCounter then cred.signCount + 1 else cred.signCount

/-- `build_assertion`: the counter comes from the copy `cred`, and is persisted before the
response is built. -/
def buildAssertion (cred : Credential) (rpIdHash clientDataHash : Block 32) (flags : UInt8)
    (bumpCounter : Bool) (ext : ExtensionsIn) (numberOfCredentials : Option ℕ) :
    Cmd Status Reply := do
  let key ← loadKey D cred
  let count := assertionCount cred bumpCounter
  let extensions ← assertionExtensions D cred flags ext
  let authData : AuthData := {
    rpIdHash
    flags := flags ||| (if extensions.isEmpty then 0 else kFlagEd)
    signCount := count
    attested := none
    extensions }
  let sig ← signDer key (authData.bytes ++ clientDataHash.bytes)
  if bumpCounter then
    let now ← nowUnix
    (Store.updateCountAndUsed cred.credId.bytes count now).orFail .other
  return .assertion cred.credId authData sig ⟨cred.userId, cred.userName, cred.userDisplay⟩
    numberOfCredentials

/-! ### The commands -/

/-- `parse` and the checks of the request alone. -/
def getAssertionRequest (body : Bytes) : Except Status GetAssertionRequest := do
  let q ← Reader.parseWith Requests.parseGetAssertion body
  if q.rpId.isEmpty || q.rpId.length > 255 then throw .invalidParameter
  if q.options.uv = some true then throw .invalidOption
  return q

/-- The user presence option; the default is `true`. -/
def GetAssertionRequest.up (q : GetAssertionRequest) : Bool := q.options.up.getD true

/-- The rows an allowList names, each once, in the order of the list. -/
def allowed (s : Store) (rpIdHash : Block 32) (l : List PubKeyCredDescriptor) : List Credential :=
  l.foldl (fun creds d =>
    if d.type = ascii "public-key" then
      match s.find rpIdHash d.id with
      | none => creds
      | some c => if creds.any fun e => e.credId = c.credId then creds else creds ++ [c]
    else creds) []

/-- The candidates of a getAssertion: the allowed rows, or all discoverable ones. -/
def candidates (s : Store) (rpIdHash : Block 32) (allowList : Option (List PubKeyCredDescriptor)) :
    List Credential :=
  match allowList with
  | some (d :: l) => allowed s rpIdHash (d :: l)
  | _ => s.findByRp rpIdHash

/-- The order of candidates: most recently used first, ties by creation, newest first. -/
def Credential.before (a b : Credential) : Bool :=
  if a.lastUsedUnix ≠ b.lastUsedUnix then a.lastUsedUnix > b.lastUsedUnix
  else a.createdUnix > b.createdUnix

/-- `std::stable_sort` by `Credential.before`. -/
def sortCandidates (creds : List Credential) : List Credential :=
  creds.insertionSort fun a b => !b.before a

/-- The flags of an assertion. -/
def assertionFlags (uv up : Bool) : UInt8 :=
  (if uv then kFlagUv else 0) ||| (if up then kFlagUp else 0)

/-- `next_state_.reset()`. -/
def dropNext : Cmd Status Unit := modify fun w => { w with next := none }

/-- Ask the user about the first candidate, when the request wants user presence. -/
def confirmAssertion (q : GetAssertionRequest) (rpIdHash : Block 32) (first : Credential) :
    Cmd Status Unit := do
  if q.up then
    let display := if first.userDisplay.isEmpty then first.userName else first.userDisplay
    let decision ← confirmUp .getAssertion q.rpId display rpIdHash
    decision.require
  else return ()

/-- The list a getAssertion leaves behind at the time `now`. -/
def GetAssertionRequest.list (q : GetAssertionRequest) (rpIdHash : Block 32) (flags : UInt8)
    (rest : List Credential) (now : ℕ) : AssertionState where
  remaining := rest
  rpIdHash := rpIdHash
  clientDataHash := q.clientDataHash
  flags := flags
  bumpCounter := q.up
  ext := q.ext
  expiry := now + kUserActionTimeout

/-- Remember the candidates after the first, if there are any. -/
def openList (q : GetAssertionRequest) (rpIdHash : Block 32) (flags : UInt8)
    (rest : List Credential) : Cmd Status Unit := do
  if rest.isEmpty then return ()
  else
    let now ← steadyNow
    modify fun w => { w with next := some (q.list rpIdHash flags rest now) }

/-- `cmd_get_assertion` once the candidates are sorted. -/
def assertFirst (q : GetAssertionRequest) (rpIdHash : Block 32) (uv : Bool) (first : Credential)
    (rest : List Credential) : Cmd Status Reply := do
  confirmAssertion q rpIdHash first
  let flags := assertionFlags uv q.up
  openList q rpIdHash flags rest
  match ← (buildAssertion D first rpIdHash q.clientDataHash flags q.up q.ext
      (some (rest.length + 1))).attempt with
  | .ok r => return r
  | .error e => do
    dropNext
    throw e

/-- `cmd_get_assertion`. -/
def cmdGetAssertion (body : Bytes) : Cmd Status Reply := do
  dropNext
  let q ← ofExcept (getAssertionRequest body)
  let rpIdHash := D.provider.sha256 q.rpId
  let creds := candidates (← gets World.store) rpIdHash q.allowList
  let uv ← checkPinAuth D q.pinUvAuthParam q.pinUvAuthProtocol q.clientDataHash PinManager.kPermGa
    q.rpId rpIdHash false
  match sortCandidates creds with
  | [] => throw .noCredentials
  | first :: rest => assertFirst D q rpIdHash uv first rest

/-- `cmd_get_next_assertion` on a live list. -/
def assertNext (st : AssertionState) (cred : Credential) (rest : List Credential) :
    Cmd Status Reply := do
  modify fun w => { w with next := some { st with remaining := rest } }
  let r ← (buildAssertion D cred st.rpIdHash st.clientDataHash st.flags st.bumpCounter st.ext
    none).attempt
  if rest.isEmpty then dropNext
  ofExcept r

/-- `cmd_get_next_assertion`. -/
def cmdGetNextAssertion : Cmd Status Reply := do
  match ← gets World.next with
  | none => throw .notAllowed
  | some st =>
    match st.remaining with
    | [] => do
      dropNext
      throw .notAllowed
    | cred :: rest => do
      if (← steadyNow) > st.expiry then
        dropNext
        throw .notAllowed
      else assertNext D st cred rest

/-! ### What an assertion can do -/

section Rules

variable {D}

theorem quiet_hmacSalts (sel : Bytes) : ∀ salts, Quiet (hmacSalts D sel salts)
  | [] => Guarantees.pure _
  | _ :: salts => (quiet_hmacSha256 _ _).bind fun _ =>
    (quiet_hmacSalts sel salts).bind fun _ => Guarantees.pure _

theorem quiet_hmacSecretOutput (cred : Credential) (ext : ExtensionsIn) (uv : Bool) :
    Quiet (hmacSecretOutput D cred ext uv) := by
  unfold hmacSecretOutput
  rcases ext.hmacKeyAgreement with _ | key
  · exact Guarantees.throw _
  refine (Guarantees.require _ _).bind fun _ => (Guarantees.require _ _).bind fun _ => ?_
  refine ((PinManager.quiet_sharedSecretFor key).orFail _).bind fun ss => ?_
  refine ((quiet_hmacSha256 _ _).orFail _).bind fun mac => (Guarantees.require _ _).bind fun _ => ?_
  refine ((quiet_pin2Decrypt _ _).orFail _).bind fun salts => ?_
  refine (Guarantees.require _ _).bind fun _ => (Guarantees.require _ _).bind fun _ => ?_
  refine (Guarantees.require _ _).bind fun _ =>
    ((quiet_unwrapSecret _ _).orFail _).bind fun cr => ?_
  refine (Guarantees.require _ _).bind fun _ => ((quiet_hmacSalts _ _).orFail _).bind fun out => ?_
  exact (quiet_pin2Encrypt _ _).orFail _

variable {w : World} {E : Status → World → Prop} {C : World → Prop}

/-- The extensions of an assertion are empty unless the flags have user presence. -/
theorem run_assertionExtensions {cred : Credential} {flags : UInt8} {ext : ExtensionsIn}
    {Q : Bytes → World → Prop}
    (hok : ∀ l e, (l ≠ [] → flags &&& kFlagUp ≠ 0) → Q l (w.withEnv e))
    (hE : ∀ r e, E r (w.withEnv e)) (hC : ∀ e, C (w.withEnv e)) :
    (assertionExtensions D cred flags ext).Run w Q E C := by
  refine run_ite.mpr ⟨fun h => ?_, fun _ => hok [] w.env fun h => absurd rfl h⟩
  rw [run_bind]
  refine (quiet_hmacSecretOutput _ _ _).run_of (fun hs e => hok _ e fun _ => ?_) hE hC
  simp only [Bool.and_eq_true, decide_eq_true_eq] at h
  exact h.2

/-- The reply `build_assertion` makes for the copy `cred` of a row. -/
def IsAssertion (cred : Credential) (rpIdHash : Block 32) (flags : UInt8) (bump : Bool)
    (r : Reply) : Prop :=
  ∃ extensions sig number,
    r = .assertion cred.credId {
        rpIdHash
        flags := flags ||| (if extensions.isEmpty then 0 else kFlagEd)
        signCount := assertionCount cred bump
        attested := none
        extensions } sig ⟨cred.userId, cred.userName, cred.userDisplay⟩ number ∧
      (extensions ≠ [] → flags &&& kFlagUp ≠ 0)

/-- The flags of a reply to a getAssertion or getNextAssertion, but for the extension flag,
are those the assertion was made with. -/
theorem IsAssertion.flags {cred : Credential} {rpIdHash : Block 32} {flags : UInt8} {bump : Bool}
    {r : Reply} (h : IsAssertion cred rpIdHash flags bump r) :
    ∃ credId authData sig user number, r = .assertion credId authData sig user number ∧
      (authData.up ↔ flags &&& kFlagUp ≠ 0) ∧ (authData.uv ↔ flags &&& kFlagUv ≠ 0) ∧
      (authData.extensions ≠ [] → flags &&& kFlagUp ≠ 0) := by
  obtain ⟨extensions, sig, number, rfl, hext⟩ := h
  refine ⟨_, _, _, _, _, rfl, ?_, ?_, hext⟩
  · rw [AuthData.up, or_kFlagEd_and _ _ (by decide)]
  · rw [AuthData.uv, or_kFlagEd_and _ _ (by decide)]

theorem assertionFlags_up (uv up : Bool) : assertionFlags uv up &&& kFlagUp ≠ 0 ↔ up = true := by
  cases uv <;> cases up <;> decide

theorem assertionFlags_uv (uv up : Bool) : assertionFlags uv up &&& kFlagUv ≠ 0 ↔ uv = true := by
  cases uv <;> cases up <;> decide

/-- **What `build_assertion` can do.** It fails before it touches anything; or it leaves
the store alone; or, when it bumps the counter, it does what `update_count_and_used`
does. -/
theorem run_buildAssertion {cred : Credential} {rpIdHash clientDataHash : Block 32} {flags : UInt8}
    {bump : Bool} {ext : ExtensionsIn} {number : Option ℕ} {Q : Reply → World → Prop}
    (hrefuse : ∀ r e, E r (w.withEnv e))
    (hplain : bump = false → ∀ r e, IsAssertion cred rpIdHash flags bump r → Q r (w.withEnv e))
    (hbump : bump = true → ∀ now e,
      (Store.updateCountAndUsed cred.credId.bytes (cred.signCount + 1) now).Run (w.withEnv e)
        (fun _ w' => ∀ r, IsAssertion cred rpIdHash flags bump r → Q r w') (fun _ => E .other) C)
    (hC : ∀ e, C (w.withEnv e)) :
    (buildAssertion D cred rpIdHash clientDataHash flags bump ext number).Run w Q E C := by
  rw [buildAssertion, run_bind]
  refine (quiet_loadKey cred).run_of (fun key e => ?_) hrefuse hC
  rw [run_bind]
  refine run_assertionExtensions (fun extensions e hext => ?_) hrefuse hC
  rw [run_bind]
  refine (quiet_signDer _ _).run_of (fun sig e => ?_) hrefuse hC
  refine run_ite.mpr ⟨fun hb => ?_, fun hb => ?_⟩
  · rw [run_bind]
    refine run_ask (fun now e => ?_) hC
    rw [run_bind, run_orFail]
    -- the counter goes up by one from what the copy of the row says
    subst hb
    exact (hbump rfl now e).weaken fun _ w' h => h _ ⟨extensions, sig, number, rfl, hext⟩
  · have hb' : bump = false := by simpa using hb
    exact hplain hb' _ e ⟨extensions, sig, number, rfl, hext⟩

/-- The world with the list of a getAssertion in it, if there is anything to remember. -/
def Opened (q : GetAssertionRequest) (rpIdHash : Block 32) (flags : UInt8) (rest : List Credential)
    (w w' : World) : Prop :=
  (rest = [] ∧ w' = w) ∨ (rest ≠ [] ∧ ∃ e, w.env.Later e ∧
    w' = { w.withEnv e with next := some (q.list rpIdHash flags rest w.env.steadyClock.head) })

theorem run_openList {q : GetAssertionRequest} {rpIdHash : Block 32} {flags : UInt8}
    {rest : List Credential} {Q : Unit → World → Prop}
    (hopen : ∀ w', Opened q rpIdHash flags rest w w' → Q () w')
    (hC : ∀ e, C (w.withEnv e)) : (openList q rpIdHash flags rest).Run w Q E C := by
  refine run_ite.mpr ⟨fun h => hopen w (.inl ⟨List.isEmpty_iff.mp h, rfl⟩), fun h => ?_⟩
  rw [run_bind]
  exact run_ask_later (fun e he => hopen _ (.inr ⟨fun hnil => h (List.isEmpty_iff.mpr hnil),
    e, he, rfl⟩)) hC

/-- **What the last part of getAssertion can do.** It prompts, opens the list and does what
`build_assertion` does; on a failure the list is dropped. -/
theorem run_assertFirst {q : GetAssertionRequest} {rpIdHash : Block 32} {uv : Bool}
    {first : Credential} {rest : List Credential} {M : World → Prop} {Q : Reply → World → Prop}
    (hconfirm : (confirmAssertion q rpIdHash first).Run w (fun _ => M) E C)
    (hbuild : ∀ w₁ w₂, M w₁ → Opened q rpIdHash (assertionFlags uv q.up) rest w₁ w₂ →
      (buildAssertion D first rpIdHash q.clientDataHash (assertionFlags uv q.up) q.up q.ext
        (some (rest.length + 1))).Run w₂ Q (fun r w' => E r { w' with next := none }) C)
    (hC : ∀ w₁ e, M w₁ → C (w₁.withEnv e)) :
    (assertFirst D q rpIdHash uv first rest).Run w Q E C := by
  refine run_bind.mpr (hconfirm.weaken fun _ w₁ h₁ => run_bind.mpr ?_)
  refine run_openList (fun w₂ h₂ => ?_) fun e => hC w₁ e h₁
  exact run_bind.mpr (run_attempt.mpr (hbuild w₁ w₂ h₁ h₂))

/-- **What getNextAssertion can do.** It drops the list and fails, or it does what
`build_assertion` does for the first row of a list that has not expired. -/
theorem run_cmdGetNextAssertion {Q : Reply → World → Prop}
    (hrefuse : ∀ e, E .notAllowed { w.withEnv e with next := none })
    (hbuild : ∀ st cred rest e, w.next = some st → st.remaining = cred :: rest →
      w.env.steadyClock.head ≤ st.expiry → w.env.Later e →
      (buildAssertion D cred st.rpIdHash st.clientDataHash st.flags st.bumpCounter st.ext none).Run
        { w.withEnv e with next := some { st with remaining := rest } }
        (fun r w' => Q r w' ∧ Q r { w' with next := none })
        (fun x w' => E x w' ∧ E x { w' with next := none }) C)
    (hC : ∀ e, C (w.withEnv e)) : (cmdGetNextAssertion D).Run w Q E C := by
  refine run_bind.mpr (run_gets.mpr ?_)
  rcases hst : w.next with _ | st
  · have hw : { w.withEnv w.env with next := none } = w := by rw [← hst]; rfl
    exact hw ▸ hrefuse w.env
  dsimp only
  rcases hrem : st.remaining with _ | ⟨cred, rest⟩
  · exact hrefuse w.env
  -- the clock is asked only when there is a row to return
  refine run_bind.mpr (run_ask_later (fun e he => ?_) hC)
  refine run_ite.mpr ⟨fun _ => hrefuse e, fun hlive => ?_⟩
  refine run_bind.mpr (run_modify.mpr (run_bind.mpr (run_attempt.mpr ?_)))
  refine (hbuild st cred rest e hst hrem (Nat.le_of_not_lt hlive) he).mono (fun r w' h => ?_)
    (fun x w' h => ?_) fun _ h => h
  · exact run_ite.mpr ⟨fun _ => h.2, fun _ => h.1⟩
  · exact run_ite.mpr ⟨fun _ => h.2, fun _ => h.1⟩

end Rules

end Swpasskey
