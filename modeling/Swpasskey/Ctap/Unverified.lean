import Swpasskey.Ctap.Enumeration
import Swpasskey.Ctap.HmacSecret
import Swpasskey.Lib.Relational

/-!
# Responses without user verification

What an assertion without user verification, or a U2F authentication, may not reveal: the
names of the user and of the RP, and CredRandomWithUV, the first 32 bytes of the unwrapped
credRandom. `Alike U w w'` says that two states differ in nothing else. From such states,
and with the same answers of the outside, the two runs go on side by side: every branch is
taken in both or in neither, and the responses are equal byte for byte. The prompts and what
is saved do differ.
-/

namespace Swpasskey

open Proc Cbor Store

variable {D : Device} {U : Bytes → Bytes → Prop}

/-! ### What may differ -/

/-- Two secrets of one length that agree from byte 32 on. -/
structure SameTail (s s' : Bytes) : Prop where
  length : s.length = s'.length
  tail : s.drop 32 = s'.drop 32

/-- The part of a row that an assertion may reveal without user verification. -/
def Credential.unprotected (c : Credential) : Credential :=
  { c with rpName := [], userName := [], userDisplay := [], credRandom := [] }

/-- Two rows that differ at most in what user verification protects; `U` relates the wrapped
secrets of a hardware backend. -/
structure RowAlike (U : Bytes → Bytes → Prop) (c c' : Credential) : Prop where
  unprotected : c.unprotected = c'.unprotected
  isEmpty : c.credRandom.isEmpty = c'.credRandom.isEmpty
  software : c.backend = .software → SameTail c.credRandom c'.credRandom
  hardware : c.backend ≠ .software → U c.credRandom c'.credRandom

/-- Two stores of such rows. -/
structure StoreAlike (U : Bytes → Bytes → Prop) (s s' : Store) : Prop where
  creds : List.Forall₂ (RowAlike U) s.creds s'.creds
  rest : { s with creds := [] } = { s' with creds := [] }

/-- Two pending lists of such rows, opened without user verification. -/
structure ListAlike (U : Bytes → Bytes → Prop) (st st' : AssertionState) : Prop where
  remaining : List.Forall₂ (RowAlike U) st.remaining st'.remaining
  rest : { st with remaining := [] } = { st' with remaining := [] }
  flags : st.flags &&& kFlagUv = 0

/-- Two states of the authenticator that differ at most in what user verification protects. -/
structure Alike (U : Bytes → Bytes → Prop) (w w' : World) : Prop where
  store : StoreAlike U w.store w'.store
  file : Option.Rel (StoreAlike U) w.file w'.file
  next : Option.Rel (ListAlike U) w.next w'.next
  pin : w.pin = w'.pin

/-- Unwrapped by any of these environments, the secrets differ at most in their first 32
bytes. -/
def TailsAgree (es : List Env) (x x' : Bytes) : Prop :=
  ∀ e ∈ es, ∀ i, Option.Rel SameTail (e.unwrap.get i x) (e.unwrap.get i x')

/-- What the environment unwraps of related secrets differs at most in the first 32 bytes. -/
def Env.Respects (U : Bytes → Bytes → Prop) (e : Env) : Prop :=
  ∀ i x x', U x x' → Option.Rel SameTail (e.unwrap.get i x) (e.unwrap.get i x')

/-- Two runs that get the same answers. -/
structure SideBySide (U : Bytes → Bytes → Prop) (w w' : World) : Prop where
  env : w.env = w'.env
  respects : w.env.Respects U
  alike : Alike U w w'

theorem Env.Respects.later {e e' : Env} (h : e.Respects U) (he : e.Later e') : e'.Respects U := by
  intro i x x' hx
  obtain ⟨k, hk⟩ := he.unwrap
  rw [hk, Stream'.get_drop]
  exact h _ x x' hx

/-! ### Requests -/

section Requests

variable {ε : Type} {α : Type}

theorem SideBySide.withEnv {w w' : World} (h : SideBySide U w w') {e : Env} (he : w.env.Later e) :
    SideBySide U (w.withEnv e) (w'.withEnv e) where
  env := rfl
  respects := h.respects.later he
  alike := ⟨h.alike.store, h.alike.file, h.alike.next, h.alike.pin⟩

theorem sim_tick : Sim (SideBySide U) Eq (tick : Cmd ε Unit) tick := by
  intro w w' h
  by_cases hc : w.env.crash = some 0
  · rw [tick_died hc, tick_died (h.env ▸ hc)]
    exact .died h
  · rw [tick_apply hc, tick_apply (h.env ▸ hc), ← h.env]
    exact .ok rfl (h.withEnv w.env.later_ticked)

/-- A request gets one answer in both runs. -/
theorem sim_ask_of {V : α → α → Prop} (f : Env → α × Env)
    (hV : ∀ e : Env, e.Respects U → V (f e).1 (f e).1) [Advances f] :
    Sim (SideBySide U) V (ask f : Cmd ε α) (ask f) := by
  refine sim_tick.bind fun _ _ _ w w' h => ?_
  change Ends _ _ (.ok (f w.env).1, w.withEnv (f w.env).2)
    (.ok (f w'.env).1, w'.withEnv (f w'.env).2)
  rw [← h.env]
  exact .ok (hV w.env h.respects) (h.withEnv (Advances.later w.env))

theorem sim_ask (f : Env → α × Env) [Advances f] :
    Sim (SideBySide U) Eq (ask f : Cmd ε α) (ask f) :=
  sim_ask_of f fun _ _ => rfl

theorem sim_emit (ev ev' : Event) : Sim (SideBySide U) Eq (emit ev : Cmd ε Unit) (emit ev') :=
  Sim.modify fun _ _ h => ⟨h.env, h.respects, h.alike.store, h.alike.file,
    h.alike.next, h.alike.pin⟩

theorem sim_random (n : ℕ) : Sim (SideBySide U) Eq (random n) (random n) := by
  refine (sim_ask _).bind_eq fun r => ?_
  rcases r with _ | f
  · exact Sim.throw _
  · exact Sim.pure rfl

theorem sim_hmacSha256 (P : Provider) (key msg : Bytes) :
    Sim (SideBySide U) Eq (hmacSha256 P key msg) (hmacSha256 P key msg) :=
  (sim_ask _).bind_eq fun _ => (Sim.require rfl _).bind_eq fun _ => Sim.pure rfl

theorem sim_hkdfSha256 (P : Provider) (ikm salt info : Bytes) :
    Sim (SideBySide U) Eq (hkdfSha256 P ikm salt info) (hkdfSha256 P ikm salt info) :=
  (sim_ask _).bind_eq fun _ => (Sim.require rfl _).bind_eq fun _ => Sim.pure rfl

theorem sim_attempt {m m' : Cmd ε α} (h : Sim (SideBySide U) Eq m m') :
    Sim (SideBySide U) Eq m.attempt m'.attempt :=
  h.attempt.mono fun x x' hx => by
    rcases hx with ⟨a, _, rfl, rfl, rfl⟩ | ⟨e, rfl, rfl⟩
    · rfl
    · rfl

theorem sim_deriveSharedSecret (P : Provider) (z : Block 32) :
    Sim (SideBySide U) Eq (deriveSharedSecret P z) (deriveSharedSecret P z) := by
  refine (sim_attempt (sim_hkdfSha256 P _ _ _)).bind_eq fun h => ?_
  refine (sim_attempt (sim_hkdfSha256 P _ _ _)).bind_eq fun a => ?_
  rcases h with _ | h
  · exact Sim.throw _
  rcases a with _ | a
  · exact Sim.throw _
  · exact Sim.pure rfl

theorem sim_pin2Encrypt (P : Provider) (ss : SharedSecret) (pt : Bytes) :
    Sim (SideBySide U) Eq (pin2Encrypt P ss pt) (pin2Encrypt P ss pt) := by
  refine (sim_random 16).bind_eq fun iv => Sim.bind_eq ?_ fun _ => Sim.pure rfl
  refine (Sim.require rfl _).bind_eq fun _ => (sim_ask _).bind_eq fun _ => ?_
  exact (Sim.require rfl _).bind_eq fun _ => Sim.pure rfl

theorem sim_pin2Decrypt (P : Provider) (ss : SharedSecret) (ct : Bytes) :
    Sim (SideBySide U) Eq (pin2Decrypt P ss ct) (pin2Decrypt P ss ct) := by
  refine (Sim.require rfl _).bind_eq fun _ => (Sim.require rfl _).bind_eq fun _ => ?_
  exact (sim_ask _).bind_eq fun _ => (Sim.require rfl _).bind_eq fun _ => Sim.pure rfl

theorem sim_hmacSalts (sel : Bytes) : ∀ salts,
    Sim (SideBySide U) Eq (hmacSalts D sel salts) (hmacSalts D sel salts)
  | [] => Sim.pure rfl
  | _ :: salts => (sim_hmacSha256 _ _ _).bind_eq fun _ =>
    (sim_hmacSalts sel salts).bind_eq fun _ => Sim.pure rfl

theorem sim_sharedSecretFor (key : P256PublicKey) :
    Sim (SideBySide U) Eq (PinManager.sharedSecretFor D key)
      (PinManager.sharedSecretFor D key) := by
  refine (Sim.gets fun w w' h => congrArg PinManager.ka h.alike.pin).bind_eq fun ka => ?_
  rcases ka with _ | ka
  · exact Sim.throw _
  dsimp only
  rcases D.provider.sharedSecretX ka key with _ | z
  · exact Sim.throw _
  · exact sim_deriveSharedSecret _ z

theorem sim_signDer (key : SigningKey) (message : Bytes) :
    Sim (SideBySide U) Eq (signDer key message) (signDer key message) := by
  refine (sim_ask _).bind_eq fun f => ?_
  rcases f key message with _ | sig
  · exact Sim.throw _
  · exact Sim.pure rfl

end Requests

/-! ### Rows -/

section Rows

variable {c c' : Credential}

namespace RowAlike

variable (h : RowAlike U c c')

include h

/-- What does not look at the protected part is the same. -/
theorem congr {β : Type} (f : Credential → β) (hf : ∀ c, f c.unprotected = f c) : f c = f c' :=
  (hf c).symm.trans ((congrArg f h.unprotected).trans (hf c'))

theorem backend : c.backend = c'.backend := h.congr _ fun _ => rfl

theorem credId : c.credId = c'.credId := h.congr _ fun _ => rfl

theorem rpIdHash : c.rpIdHash = c'.rpIdHash := h.congr _ fun _ => rfl

theorem used (n : UInt32) (t : UInt64) : RowAlike U (c.used n t) (c'.used n t) where
  unprotected := h.congr (fun c => (c.used n t).unprotected) fun _ => rfl
  isEmpty := h.isEmpty
  software := h.software
  hardware := h.hardware

/-- The order of candidates does not look at what may differ. -/
theorem before_eq {e e' : Credential} (he : RowAlike U e e') : c.before e = c'.before e' := by
  have hused : c.lastUsedUnix = c'.lastUsedUnix := h.congr _ fun _ => rfl
  have hcreated : c.createdUnix = c'.createdUnix := h.congr _ fun _ => rfl
  have hused' : e.lastUsedUnix = e'.lastUsedUnix := he.congr _ fun _ => rfl
  have hcreated' : e.createdUnix = e'.createdUnix := he.congr _ fun _ => rfl
  rw [Credential.before, Credential.before, hused, hcreated, hused', hcreated']

theorem sim_loadKey : Sim (SideBySide U) Eq (loadKey D c) (loadKey D c') := by
  have hload : loadKey D c = loadKey D c' := h.congr _ fun _ => rfl
  rw [← hload]
  refine Sim.ite ?_ ?_
  · refine (Sim.require rfl _).bind_eq fun _ => (sim_ask _).bind_eq fun _ => ?_
    exact (Sim.require rfl _).bind_eq fun _ => Sim.pure rfl
  · refine (Sim.require rfl _).bind_eq fun _ => (sim_ask _).bind_eq fun _ => ?_
    exact (Sim.require rfl _).bind_eq fun _ => Sim.pure rfl

/-- The credRandoms are unwrapped to secrets that differ at most in their first half. -/
theorem sim_unwrapSecret : Sim (SideBySide U) SameTail (unwrapSecret c.backend c.credRandom)
    (unwrapSecret c'.backend c'.credRandom) := by
  rw [← h.backend]
  by_cases hb : c.backend = .software
  · rw [unwrapSecret, unwrapSecret, if_pos hb, if_pos hb]
    exact Sim.pure (h.software hb)
  rw [unwrapSecret, unwrapSecret, if_neg hb, if_neg hb]
  -- the answer is one that respects related secrets
  refine Sim.bind (V := fun f f' => f = f' ∧ Option.Rel SameTail (f c.credRandom)
    (f c'.credRandom)) (sim_ask_of _ fun e he => ?_) fun f f' hf => ?_
  · exact ⟨rfl, he 0 _ _ (h.hardware hb)⟩
  · obtain ⟨rfl, hrel⟩ := hf
    generalize f c.credRandom = x at hrel ⊢
    generalize f c'.credRandom = x' at hrel ⊢
    cases hrel with
    | some hrel => exact Sim.pure hrel
    | none => exact Sim.throw _

/-- The hmac-secret output without user verification is the same. -/
theorem sim_hmacSecretOutput (ext : ExtensionsIn) :
    Sim (SideBySide U) Eq (hmacSecretOutput D c ext false) (hmacSecretOutput D c' ext false) := by
  unfold hmacSecretOutput
  rcases ext.hmacKeyAgreement with _ | key
  · exact Sim.throw _
  refine (Sim.require rfl _).bind_eq fun _ => (Sim.require rfl _).bind_eq fun _ => ?_
  refine ((sim_sharedSecretFor key).orFail _).bind_eq fun ss => ?_
  refine ((sim_hmacSha256 _ _ _).orFail _).bind_eq fun mac => ?_
  refine (Sim.require rfl _).bind_eq fun _ => ?_
  refine ((sim_pin2Decrypt _ _ _).orFail _).bind_eq fun salts => ?_
  refine (Sim.require rfl _).bind_eq fun _ => ?_
  refine (Sim.require (by rw [h.isEmpty]) _).bind_eq fun _ => ?_
  refine (Sim.require (by rw [h.backend]) _).bind_eq fun _ => ?_
  refine (h.sim_unwrapSecret.orFail _).bind fun cr cr' hcr => ?_
  refine (Sim.require (by rw [hcr.length]) _).bind_eq fun _ => ?_
  dsimp only
  have hsel : cr.drop (if false = true then 0 else 32) =
      cr'.drop (if false = true then 0 else 32) := hcr.tail
  rw [hsel]
  refine ((sim_hmacSalts _ _).orFail _).bind_eq fun out => ?_
  exact (sim_pin2Encrypt _ _ _).orFail _

end RowAlike

theorem replaceFirst_alike {l l' : List Credential} (hc : RowAlike U c c')
    (h : List.Forall₂ (RowAlike U) l l') :
    List.Forall₂ (RowAlike U) (replaceFirst c l) (replaceFirst c' l') := by
  induction h with
  | nil => exact .nil
  | @cons e e' l l' he hl ih =>
    rw [replaceFirst, replaceFirst, ← he.credId, ← hc.credId]
    by_cases hid : e.credId = c.credId
    · rw [if_pos hid, if_pos hid]
      exact .cons hc hl
    · rw [if_neg hid, if_neg hid]
      exact .cons he ih

namespace StoreAlike

variable {s s' : Store}

theorem pin (h : StoreAlike U s s') : s.pin = s'.pin := (Store.mk.inj h.rest).2.1

theorem reopened (h : StoreAlike U s s') : StoreAlike U s.reopened s'.reopened where
  creds := h.creds
  rest := by
    obtain ⟨-, hpin, htpm, hu2f, hserial, hid⟩ := Store.mk.inj h.rest
    rw [Store.reopened, Store.reopened, hpin, htpm, hu2f, hserial, hid]

theorem findById (h : StoreAlike U s s') (credId : Bytes) :
    (s.findById credId = none ∧ s'.findById credId = none) ∨
      ∃ c c', s.findById credId = some c ∧ s'.findById credId = some c' ∧ RowAlike U c c' :=
  h.creds.find? fun _ _ hc => by rw [hc.credId]

theorem find (h : StoreAlike U s s') (rpIdHash : Block 32) (credId : Bytes) :
    (s.find rpIdHash credId = none ∧ s'.find rpIdHash credId = none) ∨
      ∃ c c', s.find rpIdHash credId = some c ∧ s'.find rpIdHash credId = some c' ∧
        RowAlike U c c' :=
  h.creds.find? fun _ _ hc => by rw [hc.credId, hc.rpIdHash]

theorem findByRp (h : StoreAlike U s s') (rpIdHash : Block 32) :
    List.Forall₂ (RowAlike U) (s.findByRp rpIdHash) (s'.findByRp rpIdHash) :=
  h.creds.filter_eq fun c c' hc => by
    have hrk : c.rk = c'.rk := hc.congr _ fun _ => rfl
    rw [hrk, hc.rpIdHash]

/-- The allowed rows are the same ones. -/
theorem allowed (h : StoreAlike U s s') (rpIdHash : Block 32) (l : List PubKeyCredDescriptor) :
    List.Forall₂ (RowAlike U) (Swpasskey.allowed s rpIdHash l)
      (Swpasskey.allowed s' rpIdHash l) := by
  refine List.rel_foldl (P := List.Forall₂ (RowAlike U)) (R := Eq) (fun acc acc' hacc d d' hd => ?_)
    .nil (List.forall₂_same.mpr fun _ _ => rfl)
  subst hd
  by_cases htype : d.type = ascii "public-key"
  · rw [if_pos htype, if_pos htype]
    rcases h.find rpIdHash d.id with ⟨hs, hs'⟩ | ⟨c, c', hs, hs', hc⟩
    · rw [hs, hs']
      exact hacc
    · rw [hs, hs']
      dsimp only
      rw [hacc.any_eq fun e e' he => by rw [he.credId, hc.credId]]
      split
      · exact hacc
      · exact List.rel_append hacc (.cons hc .nil)
  · rw [if_neg htype, if_neg htype]
    exact hacc

/-- The candidates are the same rows in the same order. -/
theorem sortCandidates (h : StoreAlike U s s') (rpIdHash : Block 32)
    (allowList : Option (List PubKeyCredDescriptor)) :
    List.Forall₂ (RowAlike U) (Swpasskey.sortCandidates (candidates s rpIdHash allowList))
      (Swpasskey.sortCandidates (candidates s' rpIdHash allowList)) := by
  refine List.Forall₂.insertionSort (fun a a' b b' ha hb => by rw [hb.before_eq ha]) ?_
  rcases allowList with _ | _ | ⟨d, l⟩
  · exact h.findByRp rpIdHash
  · exact h.findByRp rpIdHash
  · exact h.allowed rpIdHash (d :: l)

end StoreAlike

end Rows

/-! ### The store and the pending list -/

section State

theorem SideBySide.withStore {w w' : World} (h : SideBySide U w w') {s s' : Store}
    (hs : StoreAlike U s s') :
    SideBySide U { w with store := s } { w' with store := s' } where
  env := h.env
  respects := h.respects
  alike := ⟨hs, h.alike.file, h.alike.next, h.alike.pin⟩

theorem SideBySide.withNext {w w' : World} (h : SideBySide U w w') {n n' : Option AssertionState}
    (hn : Option.Rel (ListAlike U) n n') :
    SideBySide U { w with next := n } { w' with next := n' } where
  env := h.env
  respects := h.respects
  alike := ⟨h.alike.store, h.alike.file, hn, h.alike.pin⟩

theorem sim_flush (m : Mutator) : Sim (SideBySide U) Eq (flush m) (flush m) := by
  refine (sim_ask _).bind_eq fun ok => (sim_emit _ _).bind_eq fun _ => Sim.ite ?_ (Sim.throw _)
  refine Sim.modify fun w w' h => ⟨h.env, h.respects, h.alike.store, ?_, h.alike.next, h.alike.pin⟩
  exact .some h.alike.store.reopened

theorem sim_updateCountAndUsed (credId : Bytes) (n : UInt32) (t : UInt64) :
    Sim (SideBySide U) Eq (updateCountAndUsed credId n t) (updateCountAndUsed credId n t) := by
  refine Sim.bind (Sim.gets fun w w' h => h.alike.store) fun s s' hs => ?_
  rcases hs.findById credId with ⟨h, h'⟩ | ⟨c, c', h, h', hc⟩
  · rw [h, h']
    exact Sim.throw _
  · rw [h, h']
    refine (Sim.modify fun w w' hw => hw.withStore ⟨?_, ?_⟩).bind_eq fun _ => sim_flush _
    · exact replaceFirst_alike (hc.used n t) hw.alike.store.creds
    · exact hw.alike.store.rest

theorem sim_dropNext : Sim (SideBySide U) Eq dropNext dropNext :=
  Sim.modify fun _ _ h => h.withNext .none

theorem sim_decision (d : Decision) : Sim (SideBySide U) Eq d.require d.require := by
  cases d with
  | allow => exact Sim.pure rfl
  | _ => exact Sim.throw _

/-- The prompts may differ in their text. -/
theorem sim_confirmUp {ε : Type} (kind : PresenceKind) (rpId display display' : Bytes)
    (rpIdHash : Block 32) : Sim (SideBySide U) Eq
      (confirmUp kind rpId display rpIdHash : Cmd ε Decision)
      (confirmUp kind rpId display' rpIdHash) := by
  refine (sim_ask _).bind_eq fun cancelled => Sim.ite (Sim.pure rfl) ?_
  exact (sim_ask _).bind_eq fun d => (sim_emit _ _).bind_eq fun _ => Sim.pure rfl

theorem sim_updatePin (f : PinManager → PinManager) :
    Sim (SideBySide U) Eq (PinManager.update f) (PinManager.update f) :=
  Sim.modify fun _ _ h => ⟨h.env, h.respects, h.alike.store, h.alike.file, h.alike.next,
    congrArg f h.alike.pin⟩

theorem sim_verify (param : Bytes) (protocol : UInt64) (clientDataHash : Block 32)
    (permission : UInt8) (rpId : Bytes) :
    Sim (SideBySide U) Eq (PinManager.verify D param protocol clientDataHash permission rpId)
      (PinManager.verify D param protocol clientDataHash permission rpId) := by
  refine (Sim.require rfl _).bind_eq fun _ => ?_
  refine (Sim.gets fun w w' h => congrArg PinManager.token h.alike.pin).bind_eq fun t => ?_
  rcases t with _ | t
  · exact Sim.throw _
  refine (sim_ask _).bind_eq fun now => Sim.ite ?_ ?_
  · exact (sim_updatePin _).bind_eq fun _ => Sim.throw _
  refine ((sim_hmacSha256 _ _ _).orFail _).bind_eq fun mac => ?_
  refine (Sim.require rfl _).bind_eq fun _ => (Sim.require rfl _).bind_eq fun _ => ?_
  refine (Sim.require rfl _).bind_eq fun _ => (sim_ask _).bind_eq fun touched => ?_
  exact (sim_updatePin _).bind_eq fun _ => (sim_emit _ _).bind_eq fun _ => Sim.pure rfl

theorem sim_checkPinAuth (param : Option Bytes) (protocol : Option UInt64)
    (clientDataHash : Block 32) (permission : UInt8) (rpId : Bytes) (rpIdHash : Block 32)
    (isMake : Bool) : Sim (SideBySide U) Eq
      (checkPinAuth D param protocol clientDataHash permission rpId rpIdHash isMake)
      (checkPinAuth D param protocol clientDataHash permission rpId rpIdHash isMake) := by
  have hpinSet : ∀ w w', SideBySide U w w' → PinManager.pinSet w = PinManager.pinSet w' :=
    fun w w' h => by rw [PinManager.pinSet, PinManager.pinSet, h.alike.store.pin]
  rcases param with _ | param
  · refine (Sim.gets hpinSet).bind_eq fun _ => ?_
    exact (Sim.require rfl _).bind_eq fun _ => Sim.pure rfl
  rcases protocol with _ | protocol
  · exact Sim.throw _
  refine (Sim.require rfl _).bind_eq fun _ => Sim.ite ?_ (sim_verify _ _ _ _ _)
  refine (sim_confirmUp _ _ _ _ _).bind_eq fun d => ?_
  cases d with
  | allow => exact (Sim.gets hpinSet).bind_eq fun _ => Sim.throw _
  | _ => exact Sim.throw _

end State

/-! ### The assertions -/

section Assertions

variable {c c' : Credential}

/-- The same bytes on the wire. -/
def SameBytes (r r' : Reply) : Prop := r.encode = r'.encode

/-- Without user verification, a response says nothing about the user but the id. -/
theorem sameBytes_assertion {credId : Block 32} {a : AuthData} {sig : Bytes} {u u' : UserEntity}
    {number : Option ℕ} (ha : a.flags &&& kFlagUv = 0) (hid : u.id = u'.id) :
    SameBytes (.assertion credId a sig u number) (.assertion credId a sig u' number) := by
  have hfull : decide (a.flags &&& kFlagUv ≠ 0) = false := by simp [ha]
  have huser : encodeUser u false = encodeUser u' false := by simp [encodeUser, hid]
  simp only [SameBytes, Reply.encode, hfull, hid, huser]

theorem sim_assertionExtensions (h : RowAlike U c c') {flags : UInt8}
    (hflags : flags &&& kFlagUv = 0) (ext : ExtensionsIn) :
    Sim (SideBySide U) Eq (assertionExtensions D c flags ext)
      (assertionExtensions D c' flags ext) := by
  have huv : decide (flags &&& kFlagUv ≠ 0) = false := by simp [hflags]
  unfold assertionExtensions
  rw [huv]
  exact Sim.ite ((h.sim_hmacSecretOutput ext).bind_eq fun _ => Sim.pure rfl) (Sim.pure rfl)

theorem sim_buildAssertion (h : RowAlike U c c') {flags : UInt8} (hflags : flags &&& kFlagUv = 0)
    (rpIdHash clientDataHash : Block 32) (bump : Bool) (ext : ExtensionsIn) (number : Option ℕ) :
    Sim (SideBySide U) SameBytes
      (buildAssertion D c rpIdHash clientDataHash flags bump ext number)
      (buildAssertion D c' rpIdHash clientDataHash flags bump ext number) := by
  have hcount : assertionCount c bump = assertionCount c' bump :=
    h.congr (assertionCount · bump) fun _ => rfl
  have huser : c.userId = c'.userId := h.congr _ fun _ => rfl
  unfold buildAssertion
  rw [hcount, h.credId]
  refine h.sim_loadKey.bind_eq fun key => ?_
  refine (sim_assertionExtensions h hflags ext).bind_eq fun extensions => ?_
  refine (sim_signDer _ _).bind_eq fun sig => ?_
  have hbytes : ∀ extensions : Bytes,
      (flags ||| (if extensions.isEmpty then 0 else kFlagEd)) &&& kFlagUv = 0 := by
    intro extensions
    rw [or_kFlagEd_and _ _ (by decide), hflags]
  refine Sim.ite ?_ (Sim.pure (sameBytes_assertion (hbytes extensions) huser))
  refine (sim_ask _).bind_eq fun now => ?_
  exact ((sim_updateCountAndUsed _ _ _).orFail _).bind_eq fun _ =>
    Sim.pure (sameBytes_assertion (hbytes extensions) huser)

theorem sim_openList {rest rest' : List Credential} (hrest : List.Forall₂ (RowAlike U) rest rest')
    {flags : UInt8} (hflags : flags &&& kFlagUv = 0) (q : GetAssertionRequest)
    (rpIdHash : Block 32) :
    Sim (SideBySide U) Eq (openList q rpIdHash flags rest) (openList q rpIdHash flags rest') := by
  unfold openList
  have hempty : rest.isEmpty = rest'.isEmpty := by cases hrest <;> rfl
  rw [hempty]
  refine Sim.ite (Sim.pure rfl) ((sim_ask _).bind_eq fun now => Sim.modify fun w w' h => ?_)
  exact h.withNext (.some ⟨hrest, rfl, hflags⟩)

/-- The last part of getAssertion, without user verification. -/
theorem sim_assertFirst (h : RowAlike U c c') {rest rest' : List Credential}
    (hrest : List.Forall₂ (RowAlike U) rest rest') (q : GetAssertionRequest) (rpIdHash : Block 32) :
    Sim (SideBySide U) SameBytes (assertFirst D q rpIdHash false c rest)
      (assertFirst D q rpIdHash false c' rest') := by
  have hflags : assertionFlags false q.up &&& kFlagUv = 0 := by cases q.up <;> rfl
  have hconfirm : Sim (SideBySide U) Eq (confirmAssertion q rpIdHash c)
      (confirmAssertion q rpIdHash c') :=
    Sim.ite ((sim_confirmUp _ _ _ _ _).bind_eq sim_decision) (Sim.pure rfl)
  refine hconfirm.bind_eq fun _ => (sim_openList hrest hflags q rpIdHash).bind_eq fun _ => ?_
  rw [hrest.length_eq]
  refine (sim_buildAssertion h hflags _ _ _ _ _).attempt.bind fun x x' hx => ?_
  rcases hx with ⟨r, r', rfl, rfl, hr⟩ | ⟨e, rfl, rfl⟩
  · exact Sim.pure hr
  · exact sim_dropNext.bind_eq fun _ => Sim.throw e

/-- getNextAssertion goes on with a list that was opened without user verification. -/
theorem sim_cmdGetNextAssertion :
    Sim (SideBySide U) SameBytes (cmdGetNextAssertion D) (cmdGetNextAssertion D) := by
  refine Sim.bind (Sim.gets fun w w' h => h.alike.next) fun n n' hn => ?_
  cases hn with
  | none => exact Sim.throw _
  | @some st st' hst =>
    obtain ⟨hrem, hrest, hflags⟩ := hst
    obtain ⟨remaining, rpIdHash, clientDataHash, flags, bump, ext, expiry⟩ := st
    obtain ⟨remaining', rpIdHash', clientDataHash', flags', bump', ext', expiry'⟩ := st'
    obtain ⟨-, rfl, rfl, rfl, rfl, rfl, rfl⟩ := AssertionState.mk.inj hrest
    dsimp only at hrem hflags ⊢
    cases hrem with
    | nil => exact sim_dropNext.bind_eq fun _ => Sim.throw _
    | @cons c c' rest rest' hc hl =>
      refine (sim_ask _).bind_eq fun now => Sim.ite (sim_dropNext.bind_eq fun _ => Sim.throw _) ?_
      refine (Sim.modify fun w w' h => h.withNext (.some ⟨hl, rfl, hflags⟩)).bind_eq fun _ => ?_
      refine (sim_buildAssertion hc hflags _ _ _ _ _).attempt.bind fun x x' hx => ?_
      have hempty : rest.isEmpty = rest'.isEmpty := by cases hl <;> rfl
      rw [hempty]
      rcases hx with ⟨r, r', rfl, rfl, hr⟩ | ⟨e, rfl, rfl⟩
      · exact Sim.ite (sim_dropNext.bind_eq fun _ => Sim.pure hr) (Sim.pure hr)
      · exact Sim.ite (sim_dropNext.bind_eq fun _ => Sim.throw e) (Sim.throw e)

theorem sim_signChallenge (h : RowAlike U c c') (challenge application : Block 32)
    (enforce : Bool) : Sim (SideBySide U) Eq (signChallenge D c challenge application enforce)
      (signChallenge D c' challenge application enforce) := by
  have hcount : assertionCount c enforce = assertionCount c' enforce :=
    h.congr (assertionCount · enforce) fun _ => rfl
  unfold signChallenge
  rw [hcount, h.credId]
  refine h.sim_loadKey.bind_eq fun key => (sim_signDer _ _).bind_eq fun sig => ?_
  refine Sim.ite ?_ (Sim.pure rfl)
  exact (sim_ask _).bind_eq fun now => (sim_updateCountAndUsed _ _ _).bind_eq fun _ => Sim.pure rfl

theorem sim_u2fAuthenticate (p1 : UInt8) (data : Bytes) :
    Sim (SideBySide U) Eq (u2fAuthenticate D p1 data) (u2fAuthenticate D p1 data) := by
  refine (Sim.require rfl _).bind_eq fun _ => (Sim.require rfl _).bind_eq fun _ => ?_
  refine (Sim.require rfl _).bind_eq fun _ => ?_
  refine Sim.bind (Sim.gets fun w w' h => h.alike.store) fun s s' hs => ?_
  dsimp only
  rcases hs.find (Block.ofPadded 32 ((data.drop 32).take 32)) (data.drop 65) with
    ⟨h, h'⟩ | ⟨c, c', h, h', hc⟩
  · rw [h, h']
    exact Sim.throw _
  · rw [h, h']
    have hrp : c.rpId = c'.rpId := hc.congr _ fun _ => rfl
    dsimp only
    rw [hrp]
    refine (Sim.require rfl _).bind_eq fun _ => Sim.ite ?_ ((sim_signChallenge hc _ _ _).orFail _)
    refine (sim_confirmUp _ _ _ _ _).bind_eq fun d => (Sim.require rfl _).bind_eq fun _ => ?_
    exact (sim_signChallenge hc _ _ _).orFail _

end Assertions

/-! ### getAssertion -/

/-- A pinUvAuthParam is accepted. -/
def Event.Verifies : Event → Prop
  | tokenVerified _ _ _ _ _ _ _ => True
  | _ => False

instance : (ev : Event) → Decidable ev.Verifies
  | .tokenVerified _ _ _ _ _ _ _ => .isTrue trivial
  | .called _ | .answered _ _ | .refused _ _ | .restarted | .prompted _ _ | .flushed _ _
  | .persisterReset _ _ | .keyCreated _ _ | .keyDestroyed _ _ | .secretCreated _ _
  | .secretDestroyed _ _ | .credIdDrawn _ | .credRandomMade _ _ _ | .pinInstalled _ | .pinWiped
  | .pinCompared _ _ | .tokenIssued _ _ _ _ => .isFalse id

/-- No pinUvAuthParam has been accepted between the two states. -/
def Unverified (w w' : World) : Prop := ∀ ev ∈ w'.log.drop w.log.length, ¬ ev.Verifies

instance (w w' : World) : Decidable (Unverified w w') :=
  inferInstanceAs (Decidable (∀ ev ∈ _, _))

section GetAssertion

variable {w w' : World}

/-- `cmd_get_assertion` up to the check of the pinUvAuthParam. -/
def getAssertionChecks (D : Device) (body : Bytes) :
    Cmd Status (GetAssertionRequest × List Credential × Bool) := do
  dropNext
  let q ← ofExcept (getAssertionRequest body)
  let rpIdHash := D.provider.sha256 q.rpId
  let creds := candidates (← gets World.store) rpIdHash q.allowList
  let uv ← checkPinAuth D q.pinUvAuthParam q.pinUvAuthProtocol q.clientDataHash PinManager.kPermGa
    q.rpId rpIdHash false
  return (q, creds, uv)

theorem cmdGetAssertion_eq (body : Bytes) : cmdGetAssertion D body =
    getAssertionChecks D body >>= fun x => match sortCandidates x.2.1 with
      | [] => throw .noCredentials
      | first :: rest => assertFirst D x.1 (D.provider.sha256 x.1.rpId) x.2.2 first rest := by
  simp only [getAssertionChecks, bind_assoc, pure_bind]
  rfl

theorem sim_getAssertionChecks (body : Bytes) : Sim (SideBySide U)
    (fun x x' => x.1 = x'.1 ∧ x.2.2 = x'.2.2 ∧
      List.Forall₂ (RowAlike U) (sortCandidates x.2.1) (sortCandidates x'.2.1))
    (getAssertionChecks D body) (getAssertionChecks D body) := by
  refine sim_dropNext.bind_eq fun _ => (Sim.ofExcept _).bind_eq fun q => ?_
  refine Sim.bind (Sim.gets fun w w' h => h.alike.store) fun s s' hs => ?_
  refine (sim_checkPinAuth _ _ _ _ _ _ _).bind_eq fun uv => Sim.pure ⟨rfl, rfl, ?_⟩
  exact hs.sortCandidates _ _

/-- The UV flag is set only when a pinUvAuthParam has been accepted. -/
theorem run_getAssertionChecks (body : Bytes) : (getAssertionChecks D body).Run w
    (fun x w' => x.2.2 = true → ∃ ev, ev.Verifies ∧ w'.log = w.log ++ [ev]) (fun _ _ => True)
    fun _ => True := by
  refine run_bind.mpr (run_modify.mpr (run_bind.mpr
    (run_ofExcept.mpr ⟨fun q _ => ?_, fun _ _ => trivial⟩)))
  refine run_bind.mpr (run_gets.mpr (run_bind.mpr ?_))
  refine run_checkPinAuth (fun _ _ => trivial) (fun _ huv => ?_) (fun _ _ _ _ => trivial)
    (fun _ _ => trivial) (fun t e now touched p _ _ _ _ _ _ _ => ?_) fun _ => trivial
  · cases huv
  · exact ⟨.tokenVerified _ _ _ _ _ _ _, trivial, rfl⟩

/-- The two runs of a getAssertion that accepts no pinUvAuthParam. -/
theorem cmdGetAssertion_ends (h : SideBySide U w w') (body : Bytes)
    (hno : Unverified w (cmdGetAssertion D body w).2) :
    Ends (SideBySide U) SameBytes (cmdGetAssertion D body w) (cmdGetAssertion D body w') := by
  rw [cmdGetAssertion_eq] at hno ⊢
  refine (sim_getAssertionChecks body w w' h).bind ?_
  rintro ⟨q, creds, uv⟩ ⟨q', creds', uv'⟩ t t' hrun ⟨rfl, rfl, hcreds⟩ ht
  rw [bind_apply_ok hrun] at hno
  dsimp only at hcreds hno ⊢
  -- with the flag set, the accepted parameter would be in the log
  obtain rfl : uv = false := by
    rcases uv with _ | _
    · rfl
    obtain ⟨ev, hev, hlog⟩ := (run_getAssertionChecks body).ok hrun rfl
    exfalso
    refine hno ev ?_ hev
    have hgrow : Guarantees logGrows (match sortCandidates creds with
        | [] => throw .noCredentials
        | first :: rest => assertFirst D q (D.provider.sha256 q.rpId) true first rest) := by
      split
      · exact Guarantees.throw _
      · exact (logGrows_pieces D).listOps.assertFirst _ _ _ _ _
    obtain ⟨evs, hevs⟩ := log_isPrefix (hgrow.apply (s := t) rfl)
    rw [← hevs, hlog, List.append_assoc, List.drop_left]
    exact List.mem_cons_self
  generalize sortCandidates creds = l at hcreds ⊢
  generalize sortCandidates creds' = l' at hcreds ⊢
  cases hcreds with
  | nil => exact .err ht
  | cons hfirst hrest => exact sim_assertFirst hfirst hrest q _ t t' ht

end GetAssertion

/-! ### Calls and runs -/

/-- getAssertion, getNextAssertion and the U2F authentication. -/
def Call.Asserts (c : Call) : Prop :=
  (∃ body, c = .cbor (0x02 :: body)) ∨ (∃ rest, c = .cbor (0x08 :: rest)) ∨
    ∃ apdu req, c = .u2f apdu ∧ parseApdu apdu = some req ∧ req.ins = 0x02

/-- Answers with the same payload. -/
def SamePayload (a a' : Answer) : Prop := payload (.ok a) = payload (.ok a')

section Runs

variable {w w' : World}

theorem finish_ends {ε α : Type} {m : Cmd ε α} {V : α → α → Prop} {f : α → Answer}
    {r : ε → Refusal} (hm : Ends (SideBySide U) V (m w) (m w'))
    (hf : ∀ a a', V a a' → SamePayload (f a) (f a')) :
    Ends (SideBySide U) SamePayload (finish m f r w) (finish m f r w') := by
  refine Ends.mapErr (hm.bind fun a a' t t' _ hv ht => ?_) r
  exact sim_tick.bind_eq (fun _ => Sim.pure (hf a a' hv)) t t' ht

/-- What follows the command does not log. -/
theorem finish_log {ε α : Type} (m : Cmd ε α) (f : α → Answer) (r : ε → Refusal) :
    (finish m f r w).2.log = (m w).2.log := by
  unfold finish Proc.mapErr
  rw [bind_apply]
  rcases m w with ⟨a | x | _, t⟩
  · dsimp only
    by_cases hc : t.env.crash = some 0
    · rw [bind_apply_died (tick_died hc)]
    · rw [bind_apply_ok (tick_apply hc)]
      rfl
  · rfl
  · rfl

theorem sameBytes_payload (r r' : Reply) (h : SameBytes r r') : SamePayload (.cbor r) (.cbor r') :=
  congrArg (fun l => some (0x00 :: l)) h

theorem sim_handleU2f {apdu : Bytes} {req : Apdu} (hreq : parseApdu apdu = some req)
    (hins : req.ins = 0x02) : Sim (SideBySide U) Eq (handleU2f D apdu) (handleU2f D apdu) := by
  unfold handleU2f
  refine (Sim.require rfl _).bind_eq fun _ => ?_
  rw [hreq]
  refine (Sim.require rfl _).bind_eq fun _ => ?_
  rw [if_neg (by rw [hins]; decide), if_neg (by rw [hins]; decide), if_pos hins]
  exact sim_u2fAuthenticate _ _

/-- **The two runs of a call** end in the same way, with the same payload. -/
theorem answer_ends (h : SideBySide U w w') {c : Call} (hc : c.Asserts)
    (hno : Unverified w (answer D c w).2) :
    Ends (SideBySide U) SamePayload (answer D c w) (answer D c w') := by
  rcases hc with ⟨body, rfl⟩ | ⟨rest, rfl⟩ | ⟨apdu, req, rfl, hreq, hins⟩
  · refine finish_ends (V := SameBytes) ?_ sameBytes_payload
    rw [Unverified, answer, finish_log] at hno
    -- the command byte drops the list once more
    have h' := h.withNext .none
    exact cmdGetAssertion_ends h' body hno
  · exact finish_ends (sim_cmdGetNextAssertion w w' h) sameBytes_payload
  · refine finish_ends (sim_handleU2f hreq hins w w' h) fun a a' ha => ?_
    rw [ha]
    rfl

theorem Alike.begin (h : Alike U w w') {e : Env} (he : e.Respects U) (c : Call) :
    SideBySide U (w.begin c e) (w'.begin c e) where
  env := rfl
  respects := he
  alike := ⟨h.store, h.file, h.next, h.pin⟩

theorem Alike.emits (h : Alike U w w') (l l' : List Event) : Alike U (w.emits l) (w'.emits l') :=
  ⟨h.store, h.file, h.next, h.pin⟩

theorem SideBySide.restart (h : SideBySide U w w') : Alike U w.restart w'.restart where
  store := by
    have hfile := h.alike.file
    rw [World.restart, World.restart]
    generalize w.file = f at hfile ⊢
    generalize w'.file = f' at hfile ⊢
    cases hfile with
    | none => exact ⟨.nil, rfl⟩
    | some hs => exact hs
  file := h.alike.file
  next := .none
  pin := by rw [World.restart, World.restart, h.env]

/-- **One call**: the same payload is sent, and the states still differ in nothing else. -/
theorem Alike.call (h : Alike U w w') {e : Env} (he : e.Respects U) {c : Call} (hc : c.Asserts)
    (hno : Unverified (w.begin c e) (answer D c (w.begin c e)).2) :
    payload (answer D c (w.begin c e)).1 = payload (answer D c (w'.begin c e)).1 ∧
      Alike U (w.call D c e) (w'.call D c e) := by
  have hends := answer_ends (h.begin he c) hc hno
  unfold World.call
  generalize answer D c (w.begin c e) = r at hends ⊢
  generalize answer D c (w'.begin c e) = r' at hends ⊢
  rcases hends with ⟨hpay, ht⟩ | ht | ht
  · exact ⟨hpay, ht.alike.emits _ _⟩
  · exact ⟨rfl, ht.alike.emits _ _⟩
  · exact ⟨rfl, ht.restart⟩

/-- A later state to start from and an earlier one to end in: a part of the run. -/
theorem Unverified.part {t t' : World} (h : Unverified w t') (hw : w.log <+: w'.log)
    (ht : t.log <+: t'.log) : Unverified w' t := by
  intro ev hev
  obtain ⟨l, hl⟩ := hw
  rw [← hl, List.length_append, ← List.drop_drop] at hev
  exact h ev ((ht.drop _).mem (List.mem_of_mem_drop hev))

theorem answer_log_isPrefix (c : Call) (e : Env) :
    (answer D c (w.begin c e)).2.log <+: (w.call D c e).log := by
  unfold World.call
  rcases answer D c (w.begin c e) with ⟨_ | _ | _, t⟩
  · exact List.prefix_append _ _
  · exact List.prefix_append _ _
  · exact List.prefix_append _ _

/-- **A run of calls**, by induction on the calls. -/
theorem outcomes_alike : ∀ {calls : List (Call × Env)} {w w' : World}, Alike U w w' →
    (∀ p ∈ calls, p.1.Asserts ∧ p.2.Respects U) → Unverified w (w.runCalls D calls) →
    (outcomes D w calls).map payload = (outcomes D w' calls).map payload
  | [], _, _, _, _, _ => rfl
  | (c, e) :: calls, w, w', h, hcalls, hno => by
    obtain ⟨hc, he⟩ := hcalls _ List.mem_cons_self
    -- the first call is a part of the run, and so are the others
    have hcall : (w.call D c e).log <+: (w.runCalls D ((c, e) :: calls)).log :=
      World.log_isPrefix_run [.call c e] w
    have hhead : Unverified (w.begin c e) (answer D c (w.begin c e)).2 :=
      hno.part (List.prefix_append _ _) ((answer_log_isPrefix c e).trans hcall)
    have htail : Unverified (w.call D c e) ((w.call D c e).runCalls D calls) :=
      hno.part (Step.log_isPrefix w (.call c e)) (List.prefix_refl _)
    obtain ⟨hpay, hnext⟩ := h.call he hc hhead
    rw [outcomes, outcomes, List.map_cons, List.map_cons, hpay,
      outcomes_alike hnext (fun p hp => hcalls p (List.mem_cons_of_mem _ hp)) htail]

/-- **What user verification protects is not revealed without it.** From two states whose rows
differ only in the names of the user and of the RP and in the first 32 bytes of the unwrapped
credRandom, and with the same answers of the outside, every sequence of getAssertion,
getNextAssertion and U2F authentication in which no pinUvAuthParam is accepted sends the same
payloads. -/
theorem payloads_unverified {w w' : World} {calls : List (Call × Env)}
    (h : Alike (TailsAgree (calls.map Prod.snd)) w w') (hcalls : ∀ p ∈ calls, p.1.Asserts)
    (hno : Unverified w (w.runCalls D calls)) :
    (outcomes D w calls).map payload = (outcomes D w' calls).map payload := by
  refine outcomes_alike h (fun p hp => ⟨hcalls p hp, fun i x x' hx => ?_⟩) hno
  exact hx p.2 (List.mem_map_of_mem hp) i

/-! ### Two credentials that differ -/

/-- Other names, and another CredRandomWithUV. -/
def Credential.disguised (c : Credential) : Credential :=
  { c with
    rpName := ascii "other", userName := ascii "eve", userDisplay := ascii "Eve"
    credRandom := List.replicate 32 9 ++ c.credRandom.drop 32 }

/-- The row has both halves of a credRandom. -/
def Credential.Halved (c : Credential) : Prop := c.credRandom.length = 64

instance (c : Credential) : Decidable c.Halved := inferInstanceAs (Decidable (_ = _))

theorem Credential.Halved.sameTail {c : Credential} (h : c.Halved) :
    SameTail c.credRandom c.disguised.credRandom := by
  have hlen : c.credRandom.length = 64 := h
  constructor
  · simp [Credential.disguised, hlen]
  · simp [Credential.disguised]

/-- A store of disguised rows. -/
def Store.disguised (s : Store) : Store := { s with creds := s.creds.map Credential.disguised }

/-- A state with a disguised store. -/
def World.disguised (w : World) : World :=
  { w with store := w.store.disguised, file := w.file.map Store.disguised }

section Disguised

variable (hU : ∀ x x', SameTail x x' → U x x')

include hU

theorem Credential.Halved.alike {c : Credential} (h : c.Halved) : RowAlike U c c.disguised where
  unprotected := rfl
  isEmpty := by
    rw [Bool.eq_iff_iff, List.isEmpty_iff_length_eq_zero, List.isEmpty_iff_length_eq_zero,
      h.sameTail.length]
  software := fun _ => h.sameTail
  hardware := fun _ => hU _ _ h.sameTail

theorem Store.alike_disguised {s : Store} (h : ∀ c ∈ s.creds, c.Halved) :
    StoreAlike U s s.disguised where
  creds := List.forall₂_map_right_iff.mpr (List.forall₂_same.mpr fun c hc => (h c hc).alike hU)
  rest := rfl

theorem World.alike_disguised (h : ∀ c ∈ w.store.creds, c.Halved)
    (hfile : ∀ s ∈ w.file, ∀ c ∈ s.creds, c.Halved) (hnext : w.next = none) :
    Alike U w w.disguised where
  store := Store.alike_disguised hU h
  file := by
    rw [World.disguised]
    dsimp only
    rcases hw : w.file with _ | s
    · exact .none
    · exact .some (Store.alike_disguised hU (hfile s hw))
  next := by
    rw [World.disguised, hnext]
    exact .none
  pin := rfl

end Disguised

/-- A registered credential, with a credRandom. -/
def oneCredential : World := (World.fresh (.calm 0)).run .plain (oneSaltSteps.take 1)

theorem Call.asserts_u2fSign (application keyHandle : Block 32) :
    (Call.u2fSign application keyHandle).Asserts := by
  have htake : List.take 65 (application.bytes ++ 32 :: keyHandle.bytes) =
      application.bytes ++ 32 :: keyHandle.bytes := List.take_of_length_le (by simp)
  refine .inr (.inr ⟨_, ⟨0x00, 0x02, kAuthEnforce, 0x00,
    List.replicate 32 0 ++ application.bytes ++ [32] ++ keyHandle.bytes⟩, rfl, ?_, rfl⟩)
  simp [parseApdu, htake]

/-- Its hmac-secret is asked for, then another credential; last, a U2F signature. -/
def unverifiedCalls : List (Call × Env) :=
  [(oneSalt, .calm 2), (.getNextAssertion, .calm 3),
    (.u2fSign (Provider.plain.sha256 (ascii "a")) (Block.replicate 32 1), .calm 4)]

/-- The first response carries an extension output, the last a signature; neither changes with
the names and with CredRandomWithUV. -/
theorem payloads_unverified_disguised :
    oneCredential.store.creds ≠ oneCredential.disguised.store.creds ∧
      ((outcomes .plain oneCredential unverifiedCalls).head?.map carriesOutput = some true) ∧
      (outcomes .plain oneCredential unverifiedCalls).map payload =
        (outcomes .plain oneCredential.disguised unverifiedCalls).map payload := by
  refine ⟨by decide +kernel, by decide +kernel, payloads_unverified ?_ ?_ (by decide +kernel)⟩
  · refine World.alike_disguised (fun x x' hx e he i => ?_) (by decide +kernel) (by decide +kernel)
      (by decide +kernel)
    -- a calm environment unwraps a secret to itself
    simp only [unverifiedCalls, List.map_cons, List.map_nil, List.mem_cons, List.not_mem_nil,
      or_false] at he
    rcases he with rfl | rfl | rfl <;> exact .some hx
  · intro p hp
    simp only [unverifiedCalls, List.mem_cons, List.not_mem_nil, or_false] at hp
    rcases hp with rfl | rfl | rfl
    · exact .inl ⟨_, rfl⟩
    · exact .inr (.inl ⟨_, rfl⟩)
    · exact Call.asserts_u2fSign _ _

end Runs

end Swpasskey
