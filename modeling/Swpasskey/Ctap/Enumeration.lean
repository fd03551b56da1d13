import Swpasskey.Ctap.Answers
import Swpasskey.Ctap.Counters

/-!
# getAssertion enumerates the matching rows

When nothing fails, a getAssertion and the getNextAssertions after it answer for exactly the
rows that match the request, each once, in the order of the last use. This is a statement
about what **is** answered, so it is proved as total correctness: in a cooperative
environment every step of the two commands returns, and the rows are found again although
each answer rewrites the row it is about.
-/

namespace Swpasskey

open Proc Store

variable {D : Device} {w : World}

/-! ### The rows that match -/

/-- A row the request asks for: of the RP and, without an allowList, discoverable, or else
named by the allowList. -/
def GetAssertionRequest.matches (D : Device) (q : GetAssertionRequest) (c : Credential) : Bool :=
  c.rpIdHash = D.provider.sha256 q.rpId &&
    match q.allowList with
    | some (d :: l) => (d :: l).any fun d => d.type = ascii "public-key" && d.id = c.credId.bytes
    | _ => c.rk

/-- `find` finds the row of the RP with this id. -/
theorem find_eq_some_iff {s : Store} (hids : (ids s.creds).Nodup) {rpIdHash : Block 32}
    {credId : Bytes} {c : Credential} : s.find rpIdHash credId = some c ↔
      c ∈ s.creds ∧ c.rpIdHash = rpIdHash ∧ c.credId.bytes = credId := by
  have hsound : ∀ e, s.find rpIdHash credId = some e →
      e ∈ s.creds ∧ e.rpIdHash = rpIdHash ∧ e.credId.bytes = credId := fun e he =>
    ⟨List.mem_of_find?_eq_some he, by simpa using List.find?_some he⟩
  refine ⟨hsound c, fun ⟨hmem, hhash, hid⟩ => ?_⟩
  rcases hfind : s.find rpIdHash credId with _ | e
  · have hno := List.find?_eq_none.mp hfind c hmem
    simp [hhash, hid] at hno
  · obtain ⟨he, -, hide⟩ := hsound e hfind
    rw [List.inj_on_of_nodup_map hids he hmem (Block.ext (hide.trans hid.symm))]

/-- The rows an allowList names are those of the RP with an id in the list. -/
theorem mem_allowed {s : Store} (hids : (ids s.creds).Nodup) (rpIdHash : Block 32)
    (l : List PubKeyCredDescriptor) (c : Credential) :
    c ∈ allowed s rpIdHash l ↔ c ∈ s.creds ∧ c.rpIdHash = rpIdHash ∧
      ∃ d ∈ l, d.type = ascii "public-key" ∧ d.id = c.credId.bytes := by
  induction l using List.reverseRecOn with
  | nil => simp [allowed]
  | append_singleton l d ih =>
    have hstored := (allowed_rows s rpIdHash l).2
    -- the last descriptor names a row that is there already, a new row, or none
    have hstep : c ∈ allowed s rpIdHash (l ++ [d]) ↔ c ∈ allowed s rpIdHash l ∨
        (d.type = ascii "public-key" ∧ s.find rpIdHash d.id = some c) := by
      rw [allowed, List.foldl_append, List.foldl_cons, List.foldl_nil, ← allowed]
      by_cases htype : d.type = ascii "public-key"
      · rw [if_pos htype]
        rcases hfind : s.find rpIdHash d.id with _ | e
        · simp
        · by_cases hany : (allowed s rpIdHash l).any fun e' => e'.credId = e.credId
          · obtain ⟨e', he', hid⟩ := List.any_eq_true.mp hany
            have he := ((find_eq_some_iff hids).mp hfind).1
            obtain rfl : e' = e :=
              List.inj_on_of_nodup_map hids (hstored e' he') he (of_decide_eq_true hid)
            simp only [hany, if_true, htype, true_and, Option.some.injEq]
            exact ⟨.inl, fun h => h.elim id fun h => h ▸ he'⟩
          · simp only [if_neg hany, htype, true_and, Option.some.injEq, List.mem_append,
              List.mem_singleton]
            exact or_congr_right eq_comm
      · simp [htype]
    rw [hstep, ih, find_eq_some_iff hids]
    constructor
    · rintro (⟨hmem, hhash, d', hd', hnamed⟩ | ⟨htype, hmem, hhash, hid⟩)
      · exact ⟨hmem, hhash, d', List.mem_append_left _ hd', hnamed⟩
      · exact ⟨hmem, hhash, d, by simp, htype, hid.symm⟩
    · rintro ⟨hmem, hhash, d', hd', htype, hid⟩
      rcases List.mem_append.mp hd' with hd' | hd'
      · exact .inl ⟨hmem, hhash, d', hd', htype, hid⟩
      · obtain rfl := List.mem_singleton.mp hd'
        exact .inr ⟨htype, hmem, hhash, hid.symm⟩

/-- **The candidates are the matching rows.** -/
theorem candidates_perm {s : Store} (hids : (ids s.creds).Nodup) (q : GetAssertionRequest) :
    (candidates s (D.provider.sha256 q.rpId) q.allowList).Perm (s.creds.filter (q.matches D)) := by
  have hall : (candidates s (D.provider.sha256 q.rpId) q.allowList).Nodup :=
    List.Nodup.of_map _ (candidates_rows hids _ _).1
  refine (List.perm_ext_iff_of_nodup hall ((List.Nodup.of_map _ hids).filter _)).mpr fun c => ?_
  rw [List.mem_filter]
  unfold GetAssertionRequest.matches candidates
  rcases q.allowList with _ | _ | ⟨d, l⟩
  · simp [findByRp, and_comm]
  · simp [findByRp, and_comm]
  · rw [mem_allowed hids]
    simp

/-! ### When nothing fails -/

/-- The process lives, every save succeeds, every prompt is allowed and not cancelled, every
key loads and signs. -/
structure Env.Cooperative (e : Env) : Prop where
  crash : e.crash = none
  save : ∀ i, e.save.get i = true
  cancelled : ∀ i, e.cancelled.get i = false
  decision : ∀ i, e.decision.get i = .allow
  load : ∀ i, e.load.get i = true
  sign : ∀ i key message, (e.sign.get i key message).isSome

theorem Env.Cooperative.later {e e' : Env} (h : e.Cooperative) (he : e.Later e') :
    e'.Cooperative where
  crash := he.crash h.crash
  save := he.save.forall_get (P := fun b => b = true) h.save
  cancelled := he.cancelled.forall_get (P := fun b => b = false) h.cancelled
  decision := he.decision.forall_get (P := fun d => d = .allow) h.decision
  load := he.load.forall_get (P := fun b => b = true) h.load
  sign := he.sign.forall_get (P := fun f => ∀ key message, (f key message).isSome) h.sign

/-- The row's key can be loaded by the backends of the device. -/
def Loadable (D : Device) (c : Credential) : Prop :=
  if c.backend = .software then c.priv.length = 32 else D.primaryKind = c.backend

/-- The procedure returns, in a state that satisfies `Q`. -/
abbrev Achieves {ε α : Type} (m : Cmd ε α) (w : World) (Q : α → World → Prop) : Prop :=
  m.Run w Q (fun _ _ => False) fun _ => False

theorem Env.ticked_of_alive {e : Env} (h : e.crash = none) : e.ticked = e := by
  obtain ⟨crash, _⟩ := e
  cases h
  rfl

/-- A request to a cooperative environment is answered with the next answer. -/
theorem run_ask_cooperative {ε α : Type} {f : Env → α × Env} {a : α} {Q : α → World → Prop}
    {E : ε → World → Prop} {C : World → Prop} (he : w.env.Cooperative) (ha : (f w.env).1 = a)
    (hQ : ∀ e, e.Cooperative → Q a (w.withEnv e)) [Advances f] :
    (ask f : Cmd ε α).Run w Q E C := by
  rw [Run, ask_apply f (by rw [he.crash]; simp), Env.ticked_of_alive he.crash, ha]
  exact hQ _ (he.later (Advances.later w.env))

section Steps

variable {c cred : Credential}

theorem achieves_loadKey (he : w.env.Cooperative) (hc : Loadable D c) :
    Achieves (loadKey D c) w fun _ w' => ∃ e, e.Cooperative ∧ w' = w.withEnv e := by
  unfold Loadable at hc
  unfold loadKey
  by_cases hb : c.backend = .software
  · rw [if_pos hb] at hc ⊢
    rw [decide_eq_true hc]
    exact run_bind.mpr (run_bind.mpr (run_ask_cooperative he (he.load 0) fun e he' =>
      ⟨e, he', rfl⟩))
  · rw [if_neg hb] at hc ⊢
    rw [decide_eq_true hc]
    exact run_bind.mpr (run_bind.mpr (run_ask_cooperative he (he.load 0) fun e he' =>
      ⟨e, he', rfl⟩))

theorem achieves_signDer (he : w.env.Cooperative) (key : SigningKey) (message : Bytes) :
    Achieves (signDer key message) w fun _ w' => ∃ e, e.Cooperative ∧ w' = w.withEnv e := by
  refine run_bind.mpr (run_ask_cooperative (a := w.env.sign.head) he rfl fun e he' => ?_)
  obtain ⟨sig, hsig⟩ := Option.isSome_iff_exists.mp (he.sign 0 key message)
  rw [show w.env.sign.head key message = some sig from hsig]
  exact ⟨e, he', rfl⟩

/-- What an answer leaves as it was. -/
structure Kept (w w' : World) : Prop where
  env : w'.env.Cooperative
  next : w'.next = w.next
  ids : ids w'.store.creds = ids w.store.creds

theorem achieves_flush (he : w.env.Cooperative) (m : Mutator) :
    Achieves (flush m) w fun _ w' => Kept w w' :=
  run_bind.mpr (run_ask_cooperative he (he.save 0) fun _ he' => ⟨he', rfl, rfl⟩)

theorem achieves_updateCountAndUsed (he : w.env.Cooperative)
    (hc : cred.credId ∈ ids w.store.creds) (n : UInt32) (t : UInt64) :
    Achieves (updateCountAndUsed cred.credId.bytes n t) w fun _ w' => Kept w w' := by
  obtain ⟨row, hrow, hid⟩ := List.mem_map.mp hc
  refine run_bind.mpr (run_gets.mpr ?_)
  rcases hfound : w.store.findById cred.credId.bytes with _ | found
  · have hno := List.find?_eq_none.mp hfound row hrow
    simp [hid] at hno
  · refine run_bind.mpr (run_update.mpr ?_)
    refine (achieves_flush (w := { w with store := { w.store with
      creds := replaceFirst (found.used n t) w.store.creds } }) he _).weaken fun _ w' h => ?_
    exact ⟨h.env, h.next, h.ids.trans (map_replaceFirst_used _ hfound rfl)⟩

/-- An assertion for a row is made, and the ids of the rows stay. -/
theorem achieves_buildAssertion (he : w.env.Cooperative) (hload : Loadable D cred)
    (hc : cred.credId ∈ ids w.store.creds) {ext : ExtensionsIn}
    (hext : ext.hmacSecretPresent = false) (rpIdHash clientDataHash : Block 32) (flags : UInt8)
    (bump : Bool) (number : Option ℕ) :
    Achieves (buildAssertion D cred rpIdHash clientDataHash flags bump ext number) w fun r w' =>
      Kept w w' ∧ ∃ authData sig user, r = .assertion cred.credId authData sig user number := by
  refine run_bind.mpr ((achieves_loadKey he hload).weaken ?_)
  rintro key _ ⟨e₁, he₁, rfl⟩
  -- without hmac-secret nothing is asked of the provider for the extensions
  have hnone : assertionExtensions D cred flags ext = pure [] := by
    rw [assertionExtensions, hext]
    rfl
  rw [hnone]
  refine run_bind.mpr (run_pure.mpr (run_bind.mpr ?_))
  refine (achieves_signDer (w := w.withEnv e₁) he₁ _ _).weaken ?_
  rintro sig _ ⟨e₂, he₂, rfl⟩
  cases bump with
  | false => exact ⟨⟨he₂, rfl, rfl⟩, _, sig, _, rfl⟩
  | true =>
    refine run_bind.mpr (run_ask_cooperative he₂ rfl fun e₃ he₃ => run_bind.mpr
      (run_orFail.mpr ?_))
    refine (achieves_updateCountAndUsed (w := w.withEnv e₃) he₃ hc _ _).weaken fun _ w' h => ?_
    exact ⟨⟨h.env, h.next, h.ids⟩, _, sig, _, rfl⟩

theorem keepsStore_checkOps : CheckOps D (Frame.keeps World.store) where
  env _ _ := rfl
  prompted _ _ _ := rfl
  verify _ _ _ _ _ := Guarantees.of_run fun _ => PinManager.run_verify (fun _ _ => rfl)
    (fun _ _ => rfl) (fun _ _ _ _ _ _ _ _ _ => rfl) fun _ => rfl

theorem achieves_confirmAssertion (he : w.env.Cooperative) (q : GetAssertionRequest)
    (rpIdHash : Block 32) (first : Credential) :
    Achieves (confirmAssertion q rpIdHash first) w fun _ w' =>
      w'.env.Cooperative ∧ w'.next = w.next ∧ w'.store = w.store := by
  refine run_ite.mpr ⟨fun _ => run_bind.mpr (run_bind.mpr ?_), fun _ => ⟨he, rfl, rfl⟩⟩
  refine run_ask_cooperative he (he.cancelled 0) fun e₁ he₁ => run_bind.mpr ?_
  exact run_ask_cooperative (w := w.withEnv e₁) he₁ (he₁.decision 0) fun e₂ he₂ => ⟨he₂, rfl, rfl⟩

/-- The rows still to come: none, or those of a list that expires at `expiry`. -/
def Awaits (expiry : ℕ) (rest : List Credential) (w : World) : Prop :=
  (rest = [] ∧ w.next = none) ∨ (rest ≠ [] ∧ ∃ st, w.next = some st ∧ st.remaining = rest ∧
    st.ext.hmacSecretPresent = false ∧ st.expiry = expiry)

theorem Awaits.of_kept {expiry : ℕ} {rest : List Credential} {w' : World}
    (h : Awaits expiry rest w) (hnext : w'.next = w.next) : Awaits expiry rest w' := by
  unfold Awaits
  rw [hnext]
  exact h

/-- The answer for a row. -/
def AnswersFor (number : Option ℕ) (c : Credential) (r : Reply) : Prop :=
  ∃ authData sig user, r = .assertion c.credId authData sig user number

/-- A getNextAssertion answers for the first row of the list and leaves the others. -/
theorem achieves_cmdGetNextAssertion {expiry : ℕ} {rest : List Credential}
    (he : w.env.Cooperative) (hlist : Awaits expiry (c :: rest) w)
    (hexpiry : w.env.steadyClock.head ≤ expiry) (hload : Loadable D c)
    (hc : c.credId ∈ ids w.store.creds) :
    Achieves (cmdGetNextAssertion D) w fun r w' => AnswersFor none c r ∧ w'.env.Cooperative ∧
      Awaits expiry rest w' ∧ ids w'.store.creds = ids w.store.creds := by
  rcases hlist with ⟨hnil, -⟩ | ⟨-, st, hst, hrem, hext, rfl⟩
  · exact absurd hnil (List.cons_ne_nil _ _)
  refine run_bind.mpr (run_gets.mpr ?_)
  rw [hst]
  dsimp only
  rw [hrem]
  refine run_bind.mpr (run_ask_cooperative he rfl fun e he' => ?_)
  rw [if_neg (not_lt.mpr hexpiry)]
  refine run_bind.mpr (run_modify.mpr (run_bind.mpr (run_attempt.mpr ?_)))
  refine (achieves_buildAssertion (w := { w.withEnv e with next := some { st with
    remaining := rest } }) he' hload hc hext _ _ _ _ none).mono ?_ (fun _ _ h => h.elim)
      fun _ h => h.elim
  rintro r w' ⟨hkept, hanswer⟩
  -- after the last row the list is dropped
  refine run_ite.mpr ⟨fun hempty => ?_, fun hne => ?_⟩
  · exact ⟨hanswer, hkept.env, .inl ⟨List.isEmpty_iff.mp hempty, rfl⟩, hkept.ids⟩
  · refine ⟨hanswer, hkept.env, .inr ⟨fun hnil => hne (List.isEmpty_iff.mpr hnil), _, hkept.next,
      rfl, hext, rfl⟩, hkept.ids⟩

/-- A getAssertion answers for the first of the sorted candidates and leaves the others. -/
theorem achieves_cmdGetAssertion {body : Bytes} {q : GetAssertionRequest} {uv : Bool}
    {first : Credential} {rest : List Credential} (he : w.env.Cooperative)
    (hq : getAssertionRequest body = .ok q) (hext : q.ext.hmacSecretPresent = false)
    (hauth : (checkPinAuth D q.pinUvAuthParam q.pinUvAuthProtocol q.clientDataHash
      PinManager.kPermGa q.rpId (D.provider.sha256 q.rpId) false
        { w with next := none }).1 = .ok uv)
    (hsorted : sortCandidates (candidates w.store (D.provider.sha256 q.rpId) q.allowList) =
      first :: rest) (hload : Loadable D first) (hfirst : first.credId ∈ ids w.store.creds) :
    Achieves (cmdGetAssertion D body) w fun r w' => AnswersFor (some (rest.length + 1)) first r ∧
      w'.env.Cooperative ∧ (∃ expiry, Awaits expiry rest w') ∧
      ids w'.store.creds = ids w.store.creds := by
  have hcheck := ((onward_askOps.checkPinAuth (D := D) q.pinUvAuthParam q.pinUvAuthProtocol
    q.clientDataHash PinManager.kPermGa q.rpId (D.provider.sha256 q.rpId) false).and
    (keepsStore_checkOps.checkPinAuth q.pinUvAuthParam q.pinUvAuthProtocol q.clientDataHash
      PinManager.kPermGa q.rpId (D.provider.sha256 q.rpId) false)).run { w with next := none }
  rcases hout : checkPinAuth D q.pinUvAuthParam q.pinUvAuthProtocol q.clientDataHash
    PinManager.kPermGa q.rpId (D.provider.sha256 q.rpId) false { w with next := none } with ⟨o, w₁⟩
  rw [hout] at hauth
  dsimp only at hauth
  subst hauth
  obtain ⟨⟨hlater₁, hnext₁⟩, hstore₁⟩ := hcheck.ok hout
  have hnone : w₁.next = none := hnext₁
  have hsame : w₁.store = w.store := hstore₁
  refine run_bind.mpr (run_modify.mpr (run_bind.mpr ?_))
  rw [hq]
  refine run_pure.mpr (run_bind.mpr (run_gets.mpr (run_bind.mpr ?_)))
  rw [Run, hout]
  dsimp only
  rw [hsorted]
  refine run_bind.mpr ((achieves_confirmAssertion (he.later hlater₁) q _ first).weaken ?_)
  rintro _ w₂ ⟨he₂, hnext₂, hstore₂⟩
  have hids : ids w₂.store.creds = ids w.store.creds := by rw [hstore₂, hsame]
  -- the list of the others, if there are any
  have hopen : Achieves (openList q (D.provider.sha256 q.rpId) (assertionFlags uv q.up) rest) w₂
      fun _ w₃ => w₃.env.Cooperative ∧ (∃ expiry, Awaits expiry rest w₃) ∧
        w₃.store = w₂.store := by
    refine run_ite.mpr ⟨fun hempty => ?_, fun hne => run_bind.mpr ?_⟩
    · exact ⟨he₂, ⟨0, .inl ⟨List.isEmpty_iff.mp hempty, hnext₂.trans hnone⟩⟩, rfl⟩
    · refine run_ask_cooperative he₂ rfl fun e he₃ =>
        ⟨he₃, ⟨_, .inr ⟨?_, _, rfl, rfl, hext, rfl⟩⟩, rfl⟩
      exact fun hnil => hne (List.isEmpty_iff.mpr hnil)
  refine run_bind.mpr (hopen.weaken ?_)
  rintro _ w₃ ⟨he₃, ⟨expiry, hawaits⟩, hstore₃⟩
  have hids₃ : ids w₃.store.creds = ids w.store.creds := by rw [hstore₃, hids]
  refine run_bind.mpr (run_attempt.mpr ?_)
  refine (achieves_buildAssertion he₃ hload (hids₃ ▸ hfirst) hext _ _ _ _ _).mono ?_
    (fun _ _ h => h.elim) fun _ h => h.elim
  rintro r w' ⟨hkept, hanswer⟩
  exact ⟨hanswer, hkept.env, ⟨expiry, hawaits.of_kept hkept.next⟩, hkept.ids.trans hids₃⟩

end Steps

/-! ### The calls -/

/-- What the calls of a run are answered with, in order. -/
def outcomes (D : Device) : World → List (Call × Env) → List (Outcome Refusal Answer)
  | _, [] => []
  | w, (c, e) :: calls => (answer D c (w.begin c e)).1 :: outcomes D (w.call D c e) calls

/-- The state after the calls. -/
def World.runCalls (D : Device) (w : World) (calls : List (Call × Env)) : World :=
  w.run D (calls.map fun p => .call p.1 p.2)

/-- getNextAssertions, one for each environment. -/
def getNextCalls (es : List Env) : List (Call × Env) := es.map fun e => (.getNextAssertion, e)

/-- A command that returns in a cooperative environment is answered. -/
theorem finish_of_achieves {ε α : Type} {m : Cmd ε α} {f : α → Answer} {r : ε → Refusal}
    {Q : α → World → Prop} (h : Achieves m w fun a w' => Q a w' ∧ w'.env.Cooperative) :
    ∃ a w', finish m f r w = (.ok (f a), w') ∧ Q a w' := by
  rcases hm : m w with ⟨a | x | _, w'⟩
  · obtain ⟨hQ, he⟩ := h.ok hm
    refine ⟨a, w', ?_, hQ⟩
    have htick : (tick : Cmd ε Unit) w' = (.ok (), w') := by
      rw [tick_apply (by rw [he.crash]; simp), Env.ticked_of_alive he.crash]
      rfl
    have hbind : (m >>= fun a => tick >>= fun _ => pure (f a)) w = (.ok (f a), w') := by
      rw [bind_apply_ok hm, bind_apply_ok htick]
      rfl
    rw [finish, mapErr, hbind]
  · exact (h.err hm).elim
  · exact (h.died hm).elim

/-- The answer for a row, as a call gives it. -/
def Answered (number : Option ℕ) (c : Credential) (o : Outcome Refusal Answer) : Prop :=
  ∃ r, o = .ok (.cbor r) ∧ AnswersFor number c r

/-- A getNextAssertion as a call. -/
theorem call_getNextAssertion {expiry : ℕ} {c : Credential} {rest : List Credential} {e : Env}
    (he : e.Cooperative) (hlist : Awaits expiry (c :: rest) w)
    (hexpiry : e.steadyClock.head ≤ expiry) (hload : Loadable D c)
    (hc : c.credId ∈ ids w.store.creds) :
    Answered none c (answer D .getNextAssertion (w.begin .getNextAssertion e)).1 ∧
      Awaits expiry rest (w.call D .getNextAssertion e) ∧
      ids (w.call D .getNextAssertion e).store.creds = ids w.store.creds := by
  have hrun := achieves_cmdGetNextAssertion (D := D) (w := w.begin .getNextAssertion e) he hlist
    hexpiry hload hc
  obtain ⟨r, w', hout, hanswer, hawaits, hids⟩ := finish_of_achieves (f := Answer.cbor)
    (r := Refusal.status) (hrun.weaken fun r w' h => (⟨⟨h.1, h.2.2⟩, h.2.1⟩ :
      (AnswersFor none c r ∧ Awaits expiry rest w' ∧ ids w'.store.creds = ids w.store.creds) ∧
        w'.env.Cooperative))
  have hans : answer D .getNextAssertion (w.begin .getNextAssertion e) = (.ok (.cbor r), w') := hout
  rw [World.call, hans]
  exact ⟨⟨r, rfl, hanswer⟩, hawaits, hids⟩

/-- **The rest of the list.** As many getNextAssertions as there are rows left answer for them
in order, and no row is left. -/
theorem getNextCalls_answered (expiry : ℕ) (rest : List Credential) (es : List Env)
    (hlen : es.length = rest.length) (hes : ∀ e ∈ es, e.Cooperative)
    (hexpiry : ∀ e ∈ es, e.steadyClock.head ≤ expiry) (hload : ∀ c ∈ rest, Loadable D c)
    (hmem : ∀ c ∈ rest, c.credId ∈ ids w.store.creds) (hlist : Awaits expiry rest w) :
    List.Forall₂ (Answered none) rest (outcomes D w (getNextCalls es)) ∧
      (w.runCalls D (getNextCalls es)).next = none := by
  -- one row for each call
  induction rest generalizing es w with
  | nil =>
    obtain rfl := List.length_eq_zero_iff.mp hlen
    rcases hlist with ⟨-, hnone⟩ | ⟨hne, -⟩
    · exact ⟨.nil, hnone⟩
    · exact absurd rfl hne
  | cons c rest ih =>
    rcases es with _ | ⟨e, es⟩
    · cases hlen
    obtain ⟨hanswer, hawaits, hids⟩ := call_getNextAssertion (hes e List.mem_cons_self) hlist
      (hexpiry e List.mem_cons_self) (hload c List.mem_cons_self) (hmem c List.mem_cons_self)
    obtain ⟨hrest, hnone⟩ := ih es (Nat.succ.inj hlen)
      (fun e' he' => hes e' (List.mem_cons_of_mem e he'))
      (fun e' he' => hexpiry e' (List.mem_cons_of_mem e he'))
      (fun c' hc' => hload c' (List.mem_cons_of_mem c hc'))
      (fun c' hc' => hids ▸ hmem c' (List.mem_cons_of_mem c hc')) hawaits
    exact ⟨.cons hanswer hrest, hnone⟩

/-- Without a list, a getNextAssertion is refused. -/
theorem getNextAssertion_refused (hnone : w.next = none) (e : Env) :
    (answer D .getNextAssertion (w.begin .getNextAssertion e)).1 = .err (.status .notAllowed) := by
  have hcmd : cmdGetNextAssertion D (w.begin .getNextAssertion e) =
      (.err .notAllowed, w.begin .getNextAssertion e) := by
    have hnext : (w.begin .getNextAssertion e).next = none := hnone
    rw [cmdGetNextAssertion, bind_apply, gets_apply]
    dsimp only
    rw [hnext]
    rfl
  have hbind := bind_apply_err (f := fun a => tick >>= fun _ => pure (Answer.cbor a)) hcmd
  change (mapErr Refusal.status (cmdGetNextAssertion D >>= _) _).1 = _
  rw [mapErr, hbind]

/-- The number of credentials as the response has it: entry 5, written only above 1. -/
def Reply.numberOfCredentials : Reply → Option ℕ
  | .assertion _ _ _ _ (some n) => if n > 1 then some n else none
  | _ => none

open Cbor in
theorem Reply.encode_assertion (credId : Block 32) (authData : AuthData) (sig : Bytes)
    (user : UserEntity) (number : Option ℕ) :
    (Reply.assertion credId authData sig user number).encode = encodeMap
      ([(encodeUint 1, encodeDescriptor credId.bytes), (encodeUint 2, encodeBstr authData.bytes),
        (encodeUint 3, encodeBstr sig)] ++
      (if user.id.isEmpty then []
        else [(encodeUint 4, encodeUser user (authData.flags &&& kFlagUv ≠ 0))]) ++
      (Reply.assertion credId authData sig user number).numberOfCredentials.toList.map
        fun n => (encodeUint 5, encodeUint (UInt64.ofNat n))) := by
  rcases number with _ | n
  · rfl
  · rw [Reply.encode, Reply.numberOfCredentials]
    by_cases hn : n > 1
    · rw [if_pos hn, if_pos hn]
      rfl
    · rw [if_neg hn, if_neg hn]
      rfl

/-! ### The order -/

/-- Most recently used first, ties by creation, newest first. -/
def Credential.LastUsedFirst (a b : Credential) : Prop :=
  b.lastUsedUnix < a.lastUsedUnix ∨
    (b.lastUsedUnix = a.lastUsedUnix ∧ b.createdUnix ≤ a.createdUnix)

theorem Credential.lastUsedFirst_iff {a b : Credential} :
    a.LastUsedFirst b ↔ (!b.before a) = true := by
  unfold LastUsedFirst before
  by_cases heq : b.lastUsedUnix = a.lastUsedUnix
  · simp [heq, UInt64.not_lt]
  · have hnat : b.lastUsedUnix.toNat ≠ a.lastUsedUnix.toNat := fun h => heq (UInt64.toNat_inj.mp h)
    simp only [heq, false_and, or_false, ne_eq, not_false_eq_true, if_true, Bool.not_eq_true',
      decide_eq_false_iff_not, gt_iff_lt, UInt64.lt_iff_toNat_lt]
    omega

theorem sortCandidates_pairwise (l : List Credential) :
    (sortCandidates l).Pairwise Credential.LastUsedFirst := by
  have htotal : Std.Total fun a b : Credential => (!b.before a) = true := ⟨fun a b => by
    rw [← Credential.lastUsedFirst_iff, ← Credential.lastUsedFirst_iff]
    unfold Credential.LastUsedFirst
    simp only [UInt64.lt_iff_toNat_lt, UInt64.le_iff_toNat_le, ← UInt64.toNat_inj]
    omega⟩
  have htrans : IsTrans Credential fun a b => (!b.before a) = true := ⟨fun a b c => by
    rw [← Credential.lastUsedFirst_iff, ← Credential.lastUsedFirst_iff,
      ← Credential.lastUsedFirst_iff]
    unfold Credential.LastUsedFirst
    simp only [UInt64.lt_iff_toNat_lt, UInt64.le_iff_toNat_le, ← UInt64.toNat_inj]
    omega⟩
  exact (List.pairwise_insertionSort _ l).imp Credential.lastUsedFirst_iff.mpr

/-! ### The enumeration -/

/-- **getAssertion and its getNextAssertions enumerate the matching rows.** In a store with
distinct ids, for an authorised request without hmac-secret, when nothing fails and the list
does not expire: as many calls as there are matching rows answer for these rows, each once,
most recently used first; the first answer gives their number when it is above one; and a
getNextAssertion after that is not allowed. -/
theorem getAssertion_enumerates {body : Bytes} {q : GetAssertionRequest} {uv : Bool} {e₀ : Env}
    {es : List Env} (hids : (ids w.store.creds).Nodup) (hq : getAssertionRequest body = .ok q)
    (hext : q.ext.hmacSecretPresent = false)
    (hauth : (checkPinAuth D q.pinUvAuthParam q.pinUvAuthProtocol q.clientDataHash
      PinManager.kPermGa q.rpId (D.provider.sha256 q.rpId) false
        { w.begin (.cbor (0x02 :: body)) e₀ with next := none }).1 = .ok uv)
    (hload : ∀ c ∈ w.store.creds, q.matches D c → Loadable D c) (he₀ : e₀.Cooperative)
    (hes : ∀ e ∈ es, e.Cooperative)
    (hlen : es.length + 1 = (w.store.creds.filter (q.matches D)).length)
    (hexpiry : ∀ st, (w.call D (.cbor (0x02 :: body)) e₀).next = some st →
      ∀ e ∈ es, e.steadyClock.head ≤ st.expiry) :
    let rows := w.store.creds.filter (q.matches D)
    let calls := (.cbor (0x02 :: body), e₀) :: getNextCalls es
    ∃ first rest r os, (first :: rest).Perm rows ∧
      (first :: rest).Pairwise Credential.LastUsedFirst ∧
      outcomes D w calls = .ok (.cbor r) :: os ∧ AnswersFor (some rows.length) first r ∧
      r.numberOfCredentials = (if rows.length > 1 then some rows.length else none) ∧
      List.Forall₂ (Answered none) rest os ∧
      ∀ e, (answer D .getNextAssertion ((w.runCalls D calls).begin .getNextAssertion e)).1 =
        .err (.status .notAllowed) := by
  intro rows calls
  have hperm : (sortCandidates (candidates w.store (D.provider.sha256 q.rpId) q.allowList)).Perm
      rows := (List.perm_insertionSort _ _).trans (candidates_perm hids q)
  have hpairwise := sortCandidates_pairwise
    (candidates w.store (D.provider.sha256 q.rpId) q.allowList)
  have hrows : es.length + 1 = rows.length := hlen
  rcases hsorted : sortCandidates (candidates w.store (D.provider.sha256 q.rpId) q.allowList) with
    _ | ⟨first, rest⟩
  · rw [hsorted] at hperm
    exact absurd (hrows.trans hperm.length_eq.symm) (by simp)
  rw [hsorted] at hperm hpairwise
  have hcount : rest.length + 1 = rows.length := hperm.length_eq
  -- every candidate is a stored row that matches
  have hrow : ∀ c ∈ first :: rest, Loadable D c ∧ c.credId ∈ ids w.store.creds := fun c hc => by
    obtain ⟨hmem, hmatch⟩ := List.mem_filter.mp (hperm.subset hc)
    exact ⟨hload c hmem hmatch, List.mem_map_of_mem hmem⟩
  have hget := achieves_cmdGetAssertion
    (w := { w.begin (.cbor (0x02 :: body)) e₀ with next := none }) he₀ hq hext hauth hsorted
    (hrow first List.mem_cons_self).1 (hrow first List.mem_cons_self).2
  have hrun : Achieves (handleCbor D (0x02 :: body)) (w.begin (.cbor (0x02 :: body)) e₀) _ :=
    run_bind.mpr (run_modify.mpr hget)
  obtain ⟨r, w', hout, hanswer, ⟨expiry, hawaits⟩, hids'⟩ := finish_of_achieves
    (f := Answer.cbor) (r := Refusal.status) (hrun.weaken fun r w' h =>
      (⟨⟨h.1, h.2.2⟩, h.2.1⟩ : (AnswersFor (some (rest.length + 1)) first r ∧
        (∃ expiry, Awaits expiry rest w') ∧ ids w'.store.creds = ids w.store.creds) ∧
          w'.env.Cooperative))
  have hcall : answer D (.cbor (0x02 :: body)) (w.begin (.cbor (0x02 :: body)) e₀) =
      (.ok (.cbor r), w') := hout
  have hw : w.call D (.cbor (0x02 :: body)) e₀ =
      w'.emits [.answered (.cbor (0x02 :: body)) (.cbor r)] := by
    rw [World.call, hcall]
  rw [hw] at hexpiry
  -- the list has not expired; without rows there is no call
  have hlive : ∀ e ∈ es, e.steadyClock.head ≤ expiry := by
    rcases hawaits with ⟨hnil, -⟩ | ⟨-, st, hst, -, -, rfl⟩
    · rw [hnil, List.length_nil] at hcount
      obtain rfl : es = [] := List.length_eq_zero_iff.mp (by omega)
      exact fun e he => by cases he
    · exact hexpiry st hst
  obtain ⟨hrest, hnone⟩ := getNextCalls_answered expiry
    (w := w'.emits [.answered (.cbor (0x02 :: body)) (.cbor r)]) rest es (by omega) hes hlive
    (fun c hc => (hrow c (List.mem_cons_of_mem first hc)).1)
    (fun c hc => hids' ▸ (hrow c (List.mem_cons_of_mem first hc)).2) hawaits
  refine ⟨first, rest, r, _, hperm, hpairwise, ?_, hcount ▸ hanswer, ?_, hrest, fun e => ?_⟩
  · rw [outcomes, hcall, hw]
  · obtain ⟨authData, sig, user, rfl⟩ := hanswer
    rw [Reply.numberOfCredentials, hcount]
  · refine getNextAssertion_refused ?_ e
    rw [World.runCalls, List.map_cons, World.run, List.foldl_cons, Step.exec, hw]
    exact hnone

theorem Env.calm_cooperative (b : UInt8) : (Env.calm b).Cooperative where
  crash := rfl
  save _ := rfl
  cancelled _ := rfl
  decision _ := rfl
  load _ := rfl
  sign _ _ _ := rfl

/-- Two accounts at one RP. -/
def World.twoRows : World :=
  (World.fresh (.calm 0)).runCalls Device.plain
    [(.makeCredential (ascii "a") [1], .calm 1), (.makeCredential (ascii "a") [2], .calm 2)]

/-- A request for all accounts of the RP. -/
def GetAssertionRequest.ofRp : GetAssertionRequest where
  rpId := ascii "a"
  clientDataHash := Block.replicate 32 0
  allowList := none
  ext := {}
  options := {}
  pinUvAuthParam := none
  pinUvAuthProtocol := none

theorem getAssertion_enumerates_twoRows : ∃ body, getAssertionRequest body = .ok .ofRp ∧
    ∃ r os, outcomes Device.plain .twoRows
      ((.cbor (0x02 :: body), .calm 3) :: getNextCalls [.calm 4]) = .ok (.cbor r) :: os ∧
        r.numberOfCredentials = some 2 := by
  have hq : getAssertionRequest (Cbor.encodeMap
      [(Cbor.encodeInt 1, Cbor.encodeTstr (ascii "a")),
        (Cbor.encodeInt 2, Cbor.encodeBstr (List.replicate 32 0))]) = .ok .ofRp := by
    decide +kernel
  have hlen : (World.twoRows.store.creds.filter
      (GetAssertionRequest.ofRp.matches Device.plain)).length = 2 := by
    decide +kernel
  have hload : ∀ c ∈ World.twoRows.store.creds, c.backend = .secureEnclave := by
    decide +kernel
  have hes : ∀ e ∈ [Env.calm 4], e.Cooperative := fun e he =>
    List.mem_singleton.mp he ▸ Env.calm_cooperative 4
  -- the two rows are of the Secure Enclave, the backend of the device
  obtain ⟨first, rest, r, os, -, -, hout, -, hnumber, -, -⟩ := getAssertion_enumerates
    (D := .plain) (w := .twoRows) (by decide +kernel) hq rfl (by rfl)
    (fun c hc _ => by rw [Loadable, hload c hc]; rfl) (Env.calm_cooperative 3) hes hlen.symm
    (fun _ _ e he => by rw [List.mem_singleton.mp he]; exact Nat.zero_le _)
  rw [hlen] at hnumber
  exact ⟨_, hq, r, os, hout, hnumber⟩

end Swpasskey
