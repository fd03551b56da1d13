import Swpasskey.Ctap.AuthDataLayout
import Swpasskey.Ctap.CredentialIds
import Swpasskey.Ctap.Enumeration
import Swpasskey.Ctap.ResponseSize

/-!
# What authenticatorData says

The two builders of authenticatorData compute the flags first and append the parts later; here
both are followed to what the layout gives back. It is what the handler knew: the hash of the RP
ID in the request, the flags, the id and public key of the row that was just stored, the
extension. The counter is that of a **copy** of the row. In a getAssertion the copy is fresh, and
with user presence it is written back; but a list opened without user presence keeps its copies
while a U2F authentication may count on, and then a getNextAssertion answers with a counter that
is no longer stored (`authData_recovered`).
-/

namespace Swpasskey

open Proc Cbor Cbor.Reader

/-! ### What is to be recovered -/

/-- The counter that is stored for a credential. -/
def Store.countOf (s : Store) (credId : Block 32) : Option UInt32 :=
  (s.findById credId.bytes).map Credential.signCount

/-- The authenticatorData of a response. -/
def Reply.authData : Reply → Option AuthData
  | attestation a _ => some a
  | assertion _ a _ _ _ => some a
  | _ => none

/-- By the layout, this is authenticatorData for the RP and the credential, with the counter
that is stored, these parts and nothing else, and the flags say which parts are there. -/
structure Recovered (D : Device) (s : Store) (rpId : Bytes) (credId : Block 32)
    (attested : Option ParsedAttested) (extensions : Option (List (Bytes × Bytes)))
    (a : AuthData) : Prop where
  decoded : ∃ n, s.countOf credId = some n ∧ decodeAuthData a.bytes = some {
    rpIdHash := D.provider.sha256 rpId, flags := a.flags, signCount := n, attested, extensions }
  attestedFlag : a.flags &&& kFlagAt ≠ 0 ↔ a.attested.isSome
  extensionFlag : a.flags &&& kFlagEd ≠ 0 ↔ a.extensions ≠ []

/-- The last getAssertion of the steps, if nothing has dropped its list since, made this
request. -/
def Resumes (steps : List Step) (q : GetAssertionRequest) : Prop :=
  ∃ pre body e since, steps = pre ++ .call (.cbor (0x02 :: body)) e :: since ∧
    (∀ s ∈ since, ∃ c e, s = .call c e ∧ c.KeepsList) ∧ getAssertionRequest body = .ok q

/-- The request that a call answers: its own, or that of the getAssertion it goes on with. -/
def Answers (steps : List Step) (c : Call) (q : GetAssertionRequest) : Prop :=
  (∃ body, c = .cbor (0x02 :: body) ∧ getAssertionRequest body = .ok q) ∨
    ∃ rest, c = .cbor (0x08 :: rest) ∧ Resumes steps q

/-- The extension map with hmac-secret in it, if there is any. -/
def hmacExtension (present : Bool) (value : Bytes) : Option (List (Bytes × Bytes)) :=
  if present then some [(ascii "hmac-secret", value)] else none

/-- What authenticatorData is to say in the response to a call, with the store after it. -/
inductive Faithful (D : Device) (steps : List Step) (s : Store) : Call → Reply → Prop
  | makeCredential {body : Bytes} {q : MakeCredentialRequest} {row : Credential} {a : AuthData}
    {sig : Bytes} (hq : makeCredentialRequest body = .ok q)
    (hrow : s.findById row.credId.bytes = some row)
    (haccount : row.rpId = q.rp.id ∧ row.userId = q.user.id)
    (h : Recovered D s q.rp.id row.credId (some ⟨D.aaguid, row.credId.bytes, row.pub⟩)
      (hmacExtension q.ext.hmacCreateSecret (encodeBool true)) a) :
    Faithful D steps s (.cbor (0x01 :: body)) (.attestation a sig)
  | assertion {c : Call} {q : GetAssertionRequest} {credId : Block 32} {a : AuthData}
    {sig out : Bytes} {user : UserEntity} {number : Option ℕ} (hq : Answers steps c q)
    (h : Recovered D s q.rpId credId none
      (hmacExtension (q.ext.hmacSecretPresent && q.up) (encodeBstr out)) a) :
    Faithful D steps s c (.assertion credId a sig user number)

/-- The call is a getNextAssertion of a list opened without user presence, and the counter of
the next copy is not the stored one. -/
def World.Stale (w : World) (c : Call) : Prop :=
  ∃ rest st cred l, c = .cbor (0x08 :: rest) ∧ w.next = some st ∧ st.remaining = cred :: l ∧
    st.bumpCounter = false ∧ w.store.countOf cred.credId ≠ some cred.signCount

variable {D : Device}

/-! ### The store after a command -/

theorem find?_replaceFirst {c : Credential} {l : List Credential}
    (h : l.any fun e => e.credId = c.credId) :
    (Store.replaceFirst c l).find? (fun e => e.credId.bytes == c.credId.bytes) = some c := by
  induction l with
  | nil => cases h
  | cons e l ih =>
    rw [Store.replaceFirst]
    by_cases he : e.credId = c.credId
    · rw [if_pos he, List.find?_cons_of_pos (by simp)]
    · have hbytes : (e.credId.bytes == c.credId.bytes) = false :=
        beq_false_of_ne fun hb => he (Block.ext hb)
      rw [List.any_cons, Bool.or_eq_true, decide_eq_true_eq] at h
      rw [if_neg he, List.find?_cons, hbytes]
      exact ih (h.resolve_left he)

/-- A row that was put is found by its id. -/
theorem findById_putRows (s : Store) (c : Credential) :
    Store.findById { s with creds := Store.putRows c s.creds } c.credId.bytes = some c := by
  rw [Store.findById, Store.putRows]
  by_cases hany : (s.creds.any fun e => e.credId = c.credId) = true
  · rw [if_pos hany]
    exact find?_replaceFirst hany
  · rw [if_neg hany]
    refine Store.find?_of_split rfl fun e he hid => hany ?_
    exact List.any_eq_true.mpr ⟨e, he, decide_eq_true (Block.ext hid)⟩

/-- The counter of a row that was used is stored. -/
theorem countOf_used {s : Store} {credId : Block 32} {c : Credential}
    (h : s.findById credId.bytes = some c) (n : UInt32) (t : UInt64) :
    Store.countOf { s with creds := Store.replaceFirst (c.used n t) s.creds } credId = some n := by
  obtain ⟨hc, hid⟩ := Store.mem_of_findById h
  have hany : (s.creds.any fun e => e.credId = (c.used n t).credId) = true :=
    List.any_eq_true.mpr ⟨c, hc, decide_eq_true rfl⟩
  have hfind : Store.findById { s with creds := Store.replaceFirst (c.used n t) s.creds }
      credId.bytes = some (c.used n t) := hid ▸ find?_replaceFirst hany
  rw [Store.countOf, hfind]
  rfl

/-! ### From the layout to the response -/

section Laid

variable {s : Store} {rpId : Bytes} {credId : Block 32} {a : AuthData} {m : Option ExtensionMap}

/-- What is laid out is recovered, if its counter is the stored one. -/
theorem LaidOut.recovered (h : LaidOut a m) (hhash : a.rpIdHash = D.provider.sha256 rpId)
    (hcount : s.countOf credId = some a.signCount) :
    Recovered D s rpId credId (a.parsed m).attested (a.parsed m).extensions a where
  decoded := ⟨a.signCount, hcount, by rw [h.decode, AuthData.parsed, hhash]⟩
  attestedFlag := h.attested
  extensionFlag := by
    rw [h.present, h.bytes, ExtensionMap.elim_bytes_ne_nil]

/-- Its counter has to be the stored one. -/
theorem LaidOut.count_of_recovered (h : LaidOut a m) {attested : Option ParsedAttested}
    {extensions : Option (List (Bytes × Bytes))}
    (hr : Recovered D s rpId credId attested extensions a) :
    s.countOf credId = some a.signCount := by
  obtain ⟨n, hn, hdecoded⟩ := hr.decoded
  have hparsed := Option.some.inj (h.decode.symm.trans hdecoded)
  have hcount : a.signCount = n := congrArg ParsedAuthData.signCount hparsed
  rw [hn, hcount]

/-- The extension map with hmac-secret in it, as it is laid out. -/
def hmacMap (present : Bool) {value : Bytes} (hvalue : Reads skip value ()) : Option ExtensionMap :=
  if present then some (.single (ascii "hmac-secret") value (by decide) hvalue) else none

theorem hmacMap_entries (present : Bool) {value : Bytes} (hvalue : Reads skip value ()) :
    (hmacMap present hvalue).map ExtensionMap.entries = hmacExtension present value := by
  cases present
  · rfl
  · rfl

theorem hmacMap_bytes (present : Bool) {value : Bytes} (hvalue : Reads skip value ()) :
    (hmacMap present hvalue).elim [] ExtensionMap.bytes =
      if present then encodeMap [(encodeTstr (ascii "hmac-secret"), value)] else [] := by
  cases present
  · rfl
  · rfl

end Laid

/-! ### makeCredential -/

section MakeCredential

variable {b w : World}

theorem attestationFlags : ∀ uv empty : Bool,
    ((kFlagUp ||| kFlagAt ||| (if uv then kFlagUv else 0) ||| (if empty then 0 else kFlagEd)) &&&
      kFlagAt ≠ 0) ∧
    ((kFlagUp ||| kFlagAt ||| (if uv then kFlagUv else 0) ||| (if empty then 0 else kFlagEd)) &&&
      kFlagEd ≠ 0 ↔ empty = false) := by
  decide

/-- An attestation for a row that is stored. -/
theorem attest_recovered (q : MakeCredentialRequest) (uv : Bool) (key : SigningKey) {c : Credential}
    (hhash : c.rpIdHash = D.provider.sha256 q.rp.id)
    (hrow : w.store.findById c.credId.bytes = some c) :
    (attest D q uv key c).Run w (fun r w' => w'.store = w.store ∧ ∃ a sig, r = .attestation a sig ∧
        Recovered D w.store q.rp.id c.credId (some ⟨D.aaguid, c.credId.bytes, c.pub⟩)
          (hmacExtension q.ext.hmacCreateSecret (encodeBool true)) a)
      (fun _ _ => True) fun _ => True := by
  have hcount : w.store.countOf c.credId = some c.signCount := by
    rw [Store.countOf, hrow]
    rfl
  have hbytes := hmacMap_bytes q.ext.hmacCreateSecret (reads_skip_boolean true)
  refine run_bind.mpr ((quiet_signDer _ _).run_of (fun sig e => ⟨rfl, _, sig, rfl, ?_⟩)
    (fun _ _ => trivial) fun _ => trivial)
  rw [← hmacMap_entries _ (reads_skip_boolean true)]
  -- AT is set with the attested data, and ED exactly when there are extensions
  refine LaidOut.recovered (a := {
    rpIdHash := c.rpIdHash
    flags := _
    signCount := c.signCount
    attested := some (D.aaguid, c.credId, c.pub)
    extensions := _ }) ⟨?_, ?_, hbytes.symm⟩ hhash hcount
  · exact iff_of_true (attestationFlags uv _).1 rfl
  · rw [(attestationFlags uv _).2, List.isEmpty_eq_false_iff, ← hbytes,
      ExtensionMap.elim_bytes_ne_nil]

theorem makeCredentialChecks_request (body : Bytes) :
    Returns (makeCredentialChecks D body) fun p => makeCredentialRequest body = .ok p.1 := by
  refine Returns.bind (P := fun q => makeCredentialRequest body = .ok q) (fun w => ?_)
    fun q hq => ?_
  · exact run_ofExcept.mpr ⟨fun _ h => h, fun _ _ => trivial⟩
  · exact Returns.bind_right fun _ => Returns.bind_right fun _ => Returns.bind_right fun _ =>
      Returns.bind_right fun _ => Returns.bind_right fun _ => Returns.bind_right fun _ =>
        Returns.bind_right fun _ => Returns.bind_right fun _ => Returns.pure hq

/-- **makeCredential** answers for the row it has just stored. -/
theorem cmdMakeCredential_faithful (steps : List Step) (body : Bytes) :
    (cmdMakeCredential D body).Run b
      (fun r w' => Faithful D steps w'.store (.cbor (0x01 :: body)) r) (fun _ _ => True)
      fun _ => True := by
  refine run_bind.mpr ((makeCredentialChecks_request body b).weaken ?_)
  rintro ⟨q, uv⟩ w hq
  refine run_bind.mpr (run_createRow (fun m credId now secret wrapped e _ _ => ?_)
    (fun _ _ _ => trivial) (fun _ => trivial) fun _ _ _ _ _ _ => ⟨trivial, trivial⟩)
  set c := (q.template D).keyed (m.key D.primaryKind) credId now wrapped
  refine run_bind.mpr (run_gets.mpr (run_bind.mpr ?_))
  refine run_onReturn.mpr fun _ w₂ _ => ?_
  -- the row that was put is the one attested; a failed write is an error
  refine run_bind.mpr (run_storeRow (fun e _ => ?_) (fun _ => ?_) (fun _ _ => ?_) fun _ => trivial)
  · refine (attest_recovered q uv (m.key D.primaryKind) (c := c) rfl
      (findById_putRows w₂.store c)).weaken ?_
    rintro _ w' ⟨hstore, a, sig, rfl, hrecovered⟩
    rw [hstore]
    exact .makeCredential hq (findById_putRows w₂.store c) ⟨rfl, rfl⟩ hrecovered
  · exact run_onReturn.mpr fun _ _ _ => trivial
  · exact run_onReturn.mpr fun _ _ _ => trivial

end MakeCredential

/-! ### Assertions -/

section Assertion

variable {w : World}

/-- The reply is an assertion for the row `cred`, with this counter and without attested data;
its extension, if the request and the flags ask for it, is laid out behind. -/
def AssertionLaid (cred : Credential) (rpIdHash : Block 32) (flags : UInt8) (count : UInt32)
    (ext : ExtensionsIn) (r : Reply) : Prop :=
  ∃ a m sig user number out, r = .assertion cred.credId a sig user number ∧ LaidOut a m ∧
    a.rpIdHash = rpIdHash ∧ a.signCount = count ∧ a.attested = none ∧
    m.map ExtensionMap.entries =
      hmacExtension (ext.hmacSecretPresent && flags &&& kFlagUp ≠ 0) (encodeBstr out)

theorem assertionExtensions_laid (hsized : D.provider.Sized) (cred : Credential) (flags : UInt8)
    (ext : ExtensionsIn) : Returns (assertionExtensions D cred flags ext) fun l =>
      ∃ out, ∃ hout : Reads skip (encodeBstr out) (),
        l = (hmacMap (ext.hmacSecretPresent && flags &&& kFlagUp ≠ 0) hout).elim []
          ExtensionMap.bytes := by
  simp only [hmacMap_bytes]
  unfold assertionExtensions
  by_cases hpresent : (ext.hmacSecretPresent && flags &&& kFlagUp ≠ 0) = true
  · rw [if_pos hpresent]
    refine (hmacSecretOutput_length hsized cred ext _).bind fun out hout => Returns.pure ?_
    exact ⟨out, reads_skip_bstr (by omega), (if_pos hpresent).symm⟩
  · rw [if_neg hpresent]
    exact Returns.pure ⟨[], reads_skip_bstr (by decide), (if_neg hpresent).symm⟩

/-- The flags that an assertion gets from its caller do not name any part. -/
theorem assertionLaid_flags {flags : UInt8} (h : flags &&& kFlagAt = 0 ∧ flags &&& kFlagEd = 0)
    (empty : Bool) : (flags ||| (if empty then 0 else kFlagEd)) &&& kFlagAt = 0 ∧
      ((flags ||| (if empty then 0 else kFlagEd)) &&& kFlagEd ≠ 0 ↔ empty = false) := by
  have habsorb : (flags ||| kFlagEd) &&& kFlagEd = kFlagEd :=
    UInt8.toBitVec_inj.mp (BitVec.eq_of_getElem_eq fun i hi => by simp +contextual)
  refine ⟨(or_kFlagEd_and flags empty (by decide)).trans h.1, ?_⟩
  cases empty
  · rw [if_neg Bool.false_ne_true, habsorb]
    exact iff_of_true (by decide) rfl
  · simp [h.2]

/-- **What `build_assertion` lays out.** -/
theorem buildAssertion_laid (hsized : D.provider.Sized) (cred : Credential)
    (rpIdHash clientDataHash : Block 32) {flags : UInt8}
    (hflags : flags &&& kFlagAt = 0 ∧ flags &&& kFlagEd = 0) (bump : Bool) (ext : ExtensionsIn)
    (number : Option ℕ) :
    Returns (buildAssertion D cred rpIdHash clientDataHash flags bump ext number)
      (AssertionLaid cred rpIdHash flags (assertionCount cred bump) ext) := by
  refine Returns.bind_right fun key => ?_
  refine (assertionExtensions_laid hsized cred flags ext).bind fun l hl => ?_
  obtain ⟨out, hout, hl⟩ := hl
  refine Returns.bind_right fun sig => ?_
  have hlaid : AssertionLaid cred rpIdHash flags (assertionCount cred bump) ext
      (.assertion cred.credId {
        rpIdHash
        flags := flags ||| (if l.isEmpty then 0 else kFlagEd)
        signCount := assertionCount cred bump
        attested := none
        extensions := l } sig ⟨cred.userId, cred.userName, cred.userDisplay⟩ number) := by
    obtain ⟨hat, hed⟩ := assertionLaid_flags hflags l.isEmpty
    refine ⟨_, _, _, _, _, out, rfl, ⟨?_, ?_, hl⟩, rfl, rfl, rfl, hmacMap_entries _ hout⟩
    · exact iff_of_false (fun h => h hat) Bool.false_ne_true
    · rw [hed, List.isEmpty_eq_false_iff, hl, ExtensionMap.elim_bytes_ne_nil]
  -- the flush comes after the bytes are made, and does not change them
  exact Returns.ite (Returns.bind_right fun _ => Returns.bind_right fun _ => Returns.pure hlaid)
    (Returns.pure hlaid)

/-- **What `build_assertion` stores**: the counter that it answers with, if it bumps it; nothing
otherwise. -/
theorem buildAssertion_stores (cred : Credential) (rpIdHash clientDataHash : Block 32)
    (flags : UInt8) (bump : Bool) (ext : ExtensionsIn) (number : Option ℕ) :
    (buildAssertion D cred rpIdHash clientDataHash flags bump ext number).Run w
      (fun _ w' => if bump then w'.store.countOf cred.credId = some (assertionCount cred bump)
        else w'.store = w.store) (fun _ _ => True) fun _ => True := by
  refine run_buildAssertion (fun _ _ => trivial) (fun hb _ _ _ => ?_) (fun hb now e => ?_)
    fun _ => trivial
  · subst hb
    rfl
  · subst hb
    exact Store.run_updateCountAndUsed trivial (fun c e hc r _ => countOf_used hc _ _)
      (fun _ _ _ => trivial) fun _ _ _ => trivial

/-- An assertion says what it is to say if and only if its counter is the stored one. -/
theorem AssertionLaid.faithful_iff {steps : List Step} {c : Call} {q : GetAssertionRequest}
    {cred : Credential} {uv : Bool} {count : UInt32} {r : Reply} {s : Store}
    (h : AssertionLaid cred (D.provider.sha256 q.rpId) (assertionFlags uv q.up) count q.ext r)
    (hq : Answers steps c q) : Faithful D steps s c r ↔ s.countOf cred.credId = some count := by
  obtain ⟨a, m, sig, user, number, out, rfl, hlaid, hhash, rfl, hattested, hentries⟩ := h
  constructor
  · rintro (_ | ⟨-, hrecovered⟩)
    exact hlaid.count_of_recovered hrecovered
  · intro hcount
    have hup : decide (assertionFlags uv q.up &&& kFlagUp ≠ 0) = q.up := by
      rw [Bool.eq_iff_iff, decide_eq_true_eq, assertionFlags_up]
    have hrecovered : Recovered D s q.rpId _ _ _ a := hlaid.recovered hhash hcount
    rw [AuthData.parsed, hattested, hentries, hup] at hrecovered
    exact .assertion hq hrecovered

theorem assertionFlags_parts (uv up : Bool) :
    assertionFlags uv up &&& kFlagAt = 0 ∧ assertionFlags uv up &&& kFlagEd = 0 := by
  cases uv <;> cases up <;> decide

/-- What `build_assertion` answers with and what it leaves stored. -/
theorem buildAssertion_faithful (hsized : D.provider.Sized) {steps : List Step} {c : Call}
    {q : GetAssertionRequest} (hq : Answers steps c q) (cred : Credential)
    (clientDataHash : Block 32) (uv : Bool) (number : Option ℕ) :
    (buildAssertion D cred (D.provider.sha256 q.rpId) clientDataHash (assertionFlags uv q.up) q.up
      q.ext number).Run w
      (fun r w' => Faithful D steps w'.store c r ↔
        q.up = true ∨ w.store.countOf cred.credId = some cred.signCount)
      (fun _ _ => True) fun _ => True := by
  refine ((buildAssertion_stores cred _ clientDataHash _ q.up q.ext number).and
    (buildAssertion_laid hsized cred _ clientDataHash (assertionFlags_parts uv q.up) q.up q.ext
      number w)).onReturn ?_
  rintro r w' ⟨hstored, hlaid⟩
  rw [hlaid.faithful_iff hq]
  -- with `up` the count goes up in the store and in the bytes; without it in neither
  cases hup : q.up with
  | true =>
    rw [hup, if_pos rfl] at hstored
    exact iff_of_true hstored (.inl rfl)
  | false =>
    rw [hup, if_neg Bool.false_ne_true] at hstored
    rw [hstored, assertionCount, if_neg Bool.false_ne_true]
    simp

end Assertion

/-! ### The commands -/

section Commands

variable {b : World}

/-- **getAssertion** answers for a row that is stored. -/
theorem cmdGetAssertion_faithful (hsized : D.provider.Sized)
    (hids : (Store.ids b.store.creds).Nodup) (steps : List Step) (body : Bytes) :
    (cmdGetAssertion D body).Run b
      (fun r w' => Faithful D steps w'.store (.cbor (0x02 :: body)) r) (fun _ _ => True)
      fun _ => True := by
  refine run_bind.mpr (run_modify.mpr (run_bind.mpr
    (run_ofExcept.mpr ⟨fun q hq => ?_, fun _ _ => trivial⟩)))
  refine run_bind.mpr (run_gets.mpr (run_bind.mpr ?_))
  refine ((keepsStore_checkOps.checkPinAuth _ _ _ _ _ _ _).run _).onReturn ?_
  intro uv w₁ hstore₁
  dsimp only
  rcases hsorted : sortCandidates (candidates b.store (D.provider.sha256 q.rpId) q.allowList) with
    _ | ⟨first, rest⟩
  · trivial
  have hfirst : first ∈ b.store.creds := mem_of_mem_sortCandidates (hsorted ▸ List.mem_cons_self)
  -- the ids are distinct, so the count of the row is the count under its id
  have hcount : b.store.countOf first.credId = some first.signCount := by
    rw [Store.countOf, Store.findById_of_mem hids hfirst]
    rfl
  refine run_assertFirst (M := fun w₂ => w₂.store = b.store) ?_ (fun w₂ w₃ hstore₂ hopened => ?_)
    fun _ _ _ => trivial
  · exact (((keepsStore_checkOps (D := D)).confirmAssertion q _ first).run w₁).onReturn
      fun _ _ hstore₂ => hstore₂.trans hstore₁
  · have hstore₃ : w₃.store = b.store := by
      rcases hopened with ⟨-, rfl⟩ | ⟨-, e, -, rfl⟩
      · exact hstore₂
      · exact hstore₂
    have hanswers : Answers steps (.cbor (0x02 :: body)) q := .inl ⟨body, rfl, hq⟩
    refine (buildAssertion_faithful hsized hanswers first _ uv _).weaken fun r w' h =>
      h.mpr (.inr ?_)
    rw [hstore₃, hcount]

/-- The list is that of the last getAssertion of the steps. -/
def Listed (D : Device) (steps : List Step) (st : AssertionState) : Prop :=
  ∃ q uv rows now, Resumes steps q ∧
    SameList (q.list (D.provider.sha256 q.rpId) (assertionFlags uv q.up) rows now) st

theorem World.stale_iff {rest : Bytes} {st : AssertionState} {cred : Credential}
    {l : List Credential} (hst : b.next = some st) (hrem : st.remaining = cred :: l) :
    b.Stale (.cbor (0x08 :: rest)) ↔
      st.bumpCounter = false ∧ b.store.countOf cred.credId ≠ some cred.signCount := by
  constructor
  · rintro ⟨_, st', cred', l', -, hst', hrem', hstale⟩
    obtain rfl := Option.some.inj (hst.symm.trans hst')
    obtain ⟨rfl, -⟩ := List.cons.inj (hrem.symm.trans hrem')
    exact hstale
  · exact fun hstale => ⟨rest, st, cred, l, rfl, hst, hrem, hstale⟩

/-- **getNextAssertion** answers for the copy of a row. -/
theorem cmdGetNextAssertion_faithful (hsized : D.provider.Sized) {steps : List Step}
    (hlist : ∀ st, b.next = some st → Listed D steps st) (rest : Bytes) :
    (cmdGetNextAssertion D).Run b
      (fun r w' => Faithful D steps w'.store (.cbor (0x08 :: rest)) r ↔
        ¬ b.Stale (.cbor (0x08 :: rest))) (fun _ _ => True) fun _ => True := by
  refine run_cmdGetNextAssertion (fun _ => trivial) (fun st cred l e hst hrem _ _ => ?_)
    fun _ => trivial
  obtain ⟨q, uv, rows, now, hresumes, _, -, rfl⟩ := hlist st hst
  have hanswers : Answers steps (.cbor (0x08 :: rest)) q := .inr ⟨rest, rfl, hresumes⟩
  refine (buildAssertion_faithful hsized hanswers cred _ uv none).mono ?_
    (fun _ _ _ => ⟨trivial, trivial⟩) fun _ _ => trivial
  intro r w' h
  -- the session holds a copy of the row, whose count may be old by now
  have hstale : (q.up = true ∨ b.store.countOf cred.credId = some cred.signCount) ↔
      ¬ b.Stale (.cbor (0x08 :: rest)) := by
    rw [World.stale_iff hst hrem, not_and, not_not]
    change _ ↔ (q.up = false → _)
    cases q.up <;> simp
  have hfaithful := h.trans hstale
  exact ⟨hfaithful, hfaithful⟩

/-- **What a call says**: a response with authenticatorData says what it is to say, unless the
call is stale. -/
theorem answer_faithful (hsized : D.provider.Sized) (hids : (Store.ids b.store.creds).Nodup)
    {steps : List Step} (hlist : ∀ st, b.next = some st → Listed D steps st) (c : Call) :
    (answer D c).Run b
      (fun x w' => ∀ r, x = .cbor r → r.authData.isSome →
        (Faithful D steps w'.store c r ↔ ¬ b.Stale c))
      (fun _ _ => True) fun _ => True := by
  refine run_answer (logGrows_pieces D).toCallOps (fun x w' hx _ => ?_) (fun _ _ _ => trivial)
    (fun _ _ => trivial) ?_ ?_ ?_ ?_
  · rintro r rfl hr
    cases r <;> first | exact hx.elim | cases hr
  · -- makeCredential: no list is involved, so nothing can be stale
    rintro body rfl
    refine (cmdMakeCredential_faithful steps body).weaken fun r w' h e => ⟨?_, trivial⟩
    rintro _ hr -
    obtain rfl := Answer.cbor.inj hr
    refine iff_of_true h ?_
    rintro ⟨_, _, _, _, hc, -⟩
    cases hc
  · rintro body rfl
    refine (cmdGetAssertion_faithful hsized hids steps body).weaken fun r w' h e => ⟨?_, trivial⟩
    rintro _ hr -
    obtain rfl := Answer.cbor.inj hr
    refine iff_of_true h ?_
    rintro ⟨_, _, _, _, hc, -⟩
    cases hc
  · rintro rest rfl
    refine (cmdGetNextAssertion_faithful hsized hlist rest).weaken fun r w' h e => ⟨?_, trivial⟩
    rintro _ hr -
    obtain rfl := Answer.cbor.inj hr
    exact h
  · rintro apdu req rfl - - -
    refine run_onReturn.mpr fun _ _ _ _ => ⟨fun _ h => ?_, trivial⟩
    cases h

end Commands

/-! ### Runs -/

/-- **A pending list is that of the last getAssertion.** -/
theorem listed_of_pending (env : Env) (steps : List Step) :
    ∀ st, ((World.fresh env).run D steps).next = some st → Listed D steps st := by
  induction steps using List.reverseRecOn with
  | nil =>
    intro st hst
    cases hst
  | append_singleton steps s ih =>
    intro st' hst'
    -- a list that is pending after a step was pending before it, or was opened by it
    rw [World.run_concat] at hst'
    obtain ⟨c, e, rfl, ⟨hkeep, st, hst, hsame⟩ | ⟨body, -, -, rfl, -, -, hlist⟩⟩ :=
      Step.next_exec hst'
    · obtain ⟨q, uv, rows, now, ⟨pre, body, e₀, since, rfl, hsince, hq⟩, hsame₀⟩ := ih st hst
      refine ⟨q, uv, rows, now, ⟨pre, body, e₀, since ++ [.call c e], by simp, fun s hs => ?_, hq⟩,
        hsame₀.trans hsame⟩
      rcases List.mem_append.mp hs with hs | hs
      · exact hsince s hs
      · exact ⟨c, e, List.mem_singleton.mp hs, hkeep⟩
    · obtain ⟨q, uv, rest, i, hq, rfl⟩ := hlist
      exact ⟨q, uv, rest, _, ⟨steps, body, e, [], rfl, fun _ => List.not_mem_nil.elim, hq⟩, .refl _⟩

theorem run_faithful (hsized : D.provider.Sized) (env : Env) (steps : List Step)
    (c : Call) (e : Env) :
    (answer D c).Run (((World.fresh env).run D steps).begin c e)
      (fun x w' => ∀ r, x = .cbor r → r.authData.isSome →
        (Faithful D steps w'.store c r ↔ ¬ ((World.fresh env).run D steps).Stale c))
      (fun _ _ => True) fun _ => True :=
  answer_faithful (b := ((World.fresh env).run D steps).begin c e) hsized
    (DistinctIds.run D env steps).1 (listed_of_pending env steps) c

/-- **authenticatorData is recovered by its layout.** In every run, a makeCredential,
getAssertion or getNextAssertion that succeeds answers with authenticatorData from which the
layout recovers all that went in, with the counter that is stored for the credential, **if and
only if** it is not a getNextAssertion whose copy of the row has another counter than the row and
does not count on. -/
theorem authData_recovered {env : Env} {steps : List Step} {c : Call} {e : Env} {r : Reply}
    {w' : World} (hsized : D.provider.Sized)
    (hanswer : answer D c (((World.fresh env).run D steps).begin c e) = (.ok (.cbor r), w'))
    (hr : r.authData.isSome) :
    Faithful D steps w'.store c r ↔ ¬ ((World.fresh env).run D steps).Stale c :=
  (run_faithful hsized env steps c e).ok hanswer r rfl hr

/-- Whether the first waiting copy counts on, the counter stored for it, and its own. -/
def World.waiting (w : World) : Option (Bool × Option UInt32 × UInt32) :=
  w.next.bind fun st => st.remaining.head?.map fun cred =>
    (st.bumpCounter, w.store.countOf cred.credId, cred.signCount)

theorem World.stale_iff_waiting (w : World) (rest : Bytes) : w.Stale (.cbor (0x08 :: rest)) ↔
    ∃ stored n, w.waiting = some (false, stored, n) ∧ stored ≠ some n := by
  constructor
  · rintro ⟨_, st, cred, l, -, hst, hrem, hbump, hstale⟩
    exact ⟨_, _, by rw [waiting, hst, Option.bind_some, hrem, hbump]; rfl, hstale⟩
  · rintro ⟨stored, n, hwaiting, hstale⟩
    obtain ⟨st, hst, hhead⟩ := Option.bind_eq_some_iff.mp hwaiting
    obtain ⟨cred, hcred, heq⟩ := Option.map_eq_some_iff.mp hhead
    obtain ⟨l, hrem⟩ : ∃ l, st.remaining = cred :: l := ⟨_, (List.eq_cons_of_mem_head? hcred)⟩
    obtain ⟨hbump, rfl, rfl⟩ : _ ∧ _ ∧ _ := by simpa using heq
    exact (stale_iff hst hrem).mpr ⟨hbump, hstale⟩

/-- Whether the outcome is a response with authenticatorData. -/
def carriesAuthData : Outcome Refusal Answer → Bool
  | .ok (.cbor r) => r.authData.isSome
  | _ => false

theorem exists_of_carriesAuthData {o : Outcome Refusal Answer} (h : carriesAuthData o = true) :
    ∃ r, o = .ok (.cbor r) ∧ r.authData.isSome := by
  unfold carriesAuthData at h
  split at h
  · exact ⟨_, rfl, h⟩
  · cases h

/-- After a getAssertion for two rows, the second is answered with the counter that is then
stored. -/
theorem authData_recovered_twoAccounts : ∃ r w',
    answer .plain .getNextAssertion (((World.fresh (.calm 0)).run .plain twoAccounts).begin
      .getNextAssertion (.calm 4)) = (.ok (.cbor r), w') ∧
      Faithful .plain twoAccounts w'.store .getNextAssertion r := by
  have hcarries : carriesAuthData (answer .plain .getNextAssertion
      (((World.fresh (.calm 0)).run .plain twoAccounts).begin .getNextAssertion (.calm 4))).1 =
        true := by
    decide +kernel
  rcases hanswer : answer .plain .getNextAssertion (((World.fresh (.calm 0)).run .plain
    twoAccounts).begin .getNextAssertion (.calm 4)) with ⟨o, w'⟩
  rw [hanswer] at hcarries
  obtain ⟨r, rfl, hr⟩ := exists_of_carriesAuthData hcarries
  refine ⟨r, w', rfl, (authData_recovered Provider.sized_plain hanswer hr).mpr ?_⟩
  -- the list counts on, so the count that is sent is the one written
  have hwaiting : ((World.fresh (.calm 0)).run .plain twoAccounts).waiting =
      some (true, some 1, 1) := by
    decide +kernel
  rw [Call.getNextAssertion, World.stale_iff_waiting, hwaiting]
  rintro ⟨stored, n, heq, -⟩
  cases heq

/-- getAssertion for an RP without user presence. -/
def Call.getAssertionSilently (rpId : Bytes) : Call :=
  .cbor <| 0x02 :: encodeMap
    [(encodeInt 1, encodeTstr rpId), (encodeInt 2, encodeBstr (List.replicate 32 0)),
      (encodeInt 5, encodeMap [(encodeTstr (ascii "up"), encodeBool false)])]

/-- Between a getAssertion without user presence and the getNextAssertion, a U2F authentication
uses the row that waits in the list. -/
def countedOn : List Step :=
  [.call (.makeCredential (ascii "a") [1]) (.calm 1),
    .call (.makeCredential (ascii "a") [2]) (.calm 2),
    .call (.getAssertionSilently (ascii "a")) (.calm 3),
    .call (.u2fSign (Device.plain.provider.sha256 (ascii "a")) (Block.replicate 32 2)) (.calm 4)]

/-- The getNextAssertion answers with the counter 1, but 2 is stored. -/
theorem not_authData_recovered : ¬ ∀ (D : Device) (env : Env) (steps : List Step) (c : Call)
    (e : Env) (r : Reply) (w' : World), D.provider.Sized →
    answer D c (((World.fresh env).run D steps).begin c e) = (.ok (.cbor r), w') →
    r.authData.isSome → Faithful D steps w'.store c r := by
  intro h
  have hcarries : carriesAuthData (answer .plain .getNextAssertion
      (((World.fresh (.calm 0)).run .plain countedOn).begin .getNextAssertion (.calm 5))).1 =
        true := by
    decide +kernel
  rcases hanswer : answer .plain .getNextAssertion (((World.fresh (.calm 0)).run .plain
    countedOn).begin .getNextAssertion (.calm 5)) with ⟨o, w'⟩
  rw [hanswer] at hcarries
  obtain ⟨r, rfl, hr⟩ := exists_of_carriesAuthData hcarries
  have hfaithful := h .plain (.calm 0) countedOn .getNextAssertion (.calm 5) r w'
    Provider.sized_plain hanswer hr
  -- the store counts two by now, and the row that waits one
  have hwaiting : ((World.fresh (.calm 0)).run .plain countedOn).waiting =
      some (false, some 2, 1) := by
    decide +kernel
  refine ((run_faithful Provider.sized_plain (.calm 0) countedOn .getNextAssertion (.calm 5)).ok
    hanswer r rfl hr).mp hfaithful ?_
  exact (World.stale_iff_waiting _ []).mpr ⟨_, _, hwaiting, by decide⟩

end Swpasskey
