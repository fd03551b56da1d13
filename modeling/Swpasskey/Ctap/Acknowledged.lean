import Swpasskey.Ctap.CredentialIds

/-!
# An acknowledged credential is not lost

A registration is acknowledged by an attestation or by a U2F registration response, and only
after its row has been saved. From then on the row is found by its id, in memory and in what
the persister holds, whatever calls follow, whichever saves fail and wherever the process
dies: only its counter and its time of use change. Two things end this, and both show in
the log: its key was handed to `destroy`, or the generator drew its id a second time.
-/

namespace Swpasskey

open Proc Store

/-! ### What outlives the use of a row -/

/-- A row without its counter and its time of use. -/
def Credential.identity (c : Credential) : Credential := c.used 0 0

/-- The rows without their counters and times of use. -/
def identities (l : List Credential) : List Credential := l.map Credential.identity

/-- The id and the public key an answer tells the client it has registered. -/
def Answer.registered : Answer → Option (Block 32 × P256PublicKey)
  | .cbor (.attestation authData _) => authData.attested.map Prod.snd
  | .u2f (.registered pub keyHandle _ _) => some (keyHandle, pub)
  | _ => none

/-- What ends the promise made for `k`: the destruction of its key, or a second row with its
id. -/
def Event.Spares (k : Credential) (ev : Event) : Prop :=
  ev ≠ .keyDestroyed k.backend k.keyRef ∧ ev ≠ .credIdDrawn k.credId

/-- Nothing has ended the promise since the log had `n` events. -/
def Spared (n : ℕ) (k : Credential) (log : List Event) : Prop := ∀ ev ∈ log.drop n, ev.Spares k

/-- `k` is among the rows, and no other row has its id. -/
structure Holds (k : Credential) (l : List Credential) : Prop where
  stored : k.identity ∈ identities l
  unique : ∀ c ∈ l, c.credId = k.credId → c.identity = k.identity

/-- The persister holds `k`. -/
def FileHolds (n : ℕ) (k : Credential) (w : World) : Prop :=
  n ≤ w.log.length ∧ ∃ s, w.file = some s ∧ Holds k s.creds

/-- Memory and the persister hold `k`. -/
def Retained (n : ℕ) (k : Credential) (w : World) : Prop :=
  Holds k w.store.creds ∧ FileHolds n k w

/-- The frame of `Retained` while nothing ends the promise. -/
def retainedFrame (n : ℕ) (k : Credential) : Frame World :=
  whileOk (Spared n k) (Retained n k) (FileHolds n k) fun _ h => h.2

variable {D : Device} {n : ℕ} {k c old : Credential} {l : List Credential} {w : World}

theorem Spared.mono {log log' : List Event} (h : log <+: log') (hs : Spared n k log') :
    Spared n k log :=
  fun ev hev => hs ev ((h.drop n).subset hev)

/-- What has been logged since has ended nothing. -/
theorem Spared.of_mem {log evs : List Event} {v : Event} (hs : Spared n k (log ++ evs))
    (hn : n ≤ log.length) (hv : v ∈ evs) : v.Spares k := by
  refine hs v ?_
  rw [List.drop_append_of_le_length hn]
  exact List.mem_append_right _ hv

/-- What two rows with one identity share. -/
theorem Credential.key_of_identity (h : c.identity = k.identity) :
    c.credId = k.credId ∧ c.backend = k.backend ∧ c.keyRef = k.keyRef :=
  ⟨(congrArg Credential.credId h : _), (congrArg Credential.backend h : _),
    (congrArg Credential.keyRef h : _)⟩

/-! ### The rows -/

namespace Holds

/-- A row that is stored alone under its id. -/
theorem of_mem (hids : (ids l).Nodup) (hk : k ∈ l) : Holds k l where
  stored := List.mem_map_of_mem hk
  unique c hc hid := by rw [List.inj_on_of_nodup_map hids hc hk hid]

theorem exists_mem (h : Holds k l) : ∃ c ∈ l, c.identity = k.identity := List.mem_map.mp h.stored

/-- The row found by the id is the one. -/
theorem findById {s : Store} (h : Holds k s.creds) :
    ∃ c, s.findById k.credId.bytes = some c ∧ c.identity = k.identity := by
  obtain ⟨r, hr, hidr⟩ := h.exists_mem
  rcases hf : s.findById k.credId.bytes with _ | c
  · have hno := List.find?_eq_none.mp hf r hr
    simp [(Credential.key_of_identity hidr).1] at hno
  · obtain ⟨hc, hid⟩ := mem_of_findById hf
    exact ⟨c, rfl, h.unique c hc (Block.ext hid)⟩

/-- The rows without one that has another id. -/
theorem eraseRows (h : Holds k l) {credId : Bytes} (hne : k.credId.bytes ≠ credId) :
    Holds k (Store.eraseRows credId l) where
  stored := by
    obtain ⟨r, hr, hid⟩ := h.exists_mem
    refine List.mem_map.mpr ⟨r, ?_, hid⟩
    rw [Store.eraseRows, List.mem_eraseP_of_neg]
    · exact hr
    · rw [(Credential.key_of_identity hid).1]
      simpa using hne
  unique c hc := h.unique c (eraseRows_sublist.subset hc)

theorem append (h : Holds k l) (hc : c.credId ≠ k.credId) : Holds k (l ++ [c]) where
  stored := by
    rw [identities, List.map_append]
    exact List.mem_append_left _ h.stored
  unique e he := by
    rcases List.mem_append.mp he with he | he
    · exact h.unique e he
    · exact fun hid => absurd ((List.mem_singleton.mp he) ▸ hid) hc

theorem mem_replaceFirst_of_ne {e : Credential} (he : e ∈ l) (hne : e.credId ≠ c.credId) :
    e ∈ replaceFirst c l := by
  induction l with
  | nil => cases he
  | cons b l ih =>
    rw [replaceFirst]
    rcases List.mem_cons.mp he with rfl | he
    · rw [if_neg hne]
      exact List.mem_cons_self
    · split
      · exact List.mem_cons_of_mem _ he
      · exact List.mem_cons_of_mem _ (ih he)

/-- A row with another id. -/
theorem putRows (h : Holds k l) (hc : c.credId ≠ k.credId) : Holds k (Store.putRows c l) := by
  unfold Store.putRows
  split
  · obtain ⟨r, hr, hid⟩ := h.exists_mem
    have hne : r.credId ≠ c.credId := fun heq =>
      hc (heq.symm.trans (Credential.key_of_identity hid).1)
    constructor
    · exact List.mem_map.mpr ⟨r, mem_replaceFirst_of_ne hr hne, hid⟩
    · intro e he
      rcases mem_replaceFirst he with rfl | he
      · exact fun heq => absurd heq hc
      · exact h.unique e he
  · exact h.append hc

/-- The use of a row changes no identity. -/
theorem used (h : Holds k l) {credId : Bytes} {m : UInt32} {t : UInt64}
    (hc : l.find? (fun c => c.credId.bytes == credId) = some c) :
    Holds k (replaceFirst (c.used m t) l) where
  stored := by
    have hids : identities (replaceFirst (c.used m t) l) = identities l :=
      map_replaceFirst_used _ hc rfl
    exact hids ▸ h.stored
  unique e he := by
    rcases mem_replaceFirst he with rfl | he
    · exact h.unique c (List.mem_of_find?_eq_some hc)
    · exact h.unique e he

end Holds

/-! ### The mutators -/

namespace Retained

theorem withCreds (h : Retained n k w) (hl : Holds k l) : Retained n k (w.withCreds l) := ⟨hl, h.2⟩

theorem emits (h : Retained n k w) (evs : List Event) : Retained n k (w.emits evs) :=
  ⟨h.1, h.2.1.trans (by simp [World.emits]), h.2.2⟩

/-- A flush copies memory into the file, or leaves the file alone. -/
theorem flushed (h : Retained n k w) (m : Mutator) (e : Env) (ok : Bool) :
    Retained n k (w.flushed m e ok) := by
  have hlog := h.emits [.flushed m ok]
  cases ok with
  | false => exact hlog
  | true => exact ⟨hlog.1, hlog.2.1, _, rfl, hlog.1⟩

/-- The procedure retains `k`, while nothing ends the promise. -/
def Keeps {α : Type} (n : ℕ) (k : Credential) (m : Cmd Status α) (w : World) : Prop :=
  m.Run w (fun _ w' => Spared n k w'.log → Retained n k w')
    (fun _ w' => Spared n k w'.log → Retained n k w') fun w' => Spared n k w'.log → FileHolds n k w'

theorem erase (h : Retained n k w) {credId : Bytes} (hne : k.credId.bytes ≠ credId) :
    Keeps n k (Store.erase credId) w := by
  refine Store.run_erase (fun _ _ => h) (fun c e _ _ => ?_) (fun c e hc _ => ?_)
    fun _ _ _ _ => h.2
  · exact (h.withCreds (h.1.eraseRows hne)).flushed _ e _
  · refine (h.withCreds ((h.1.eraseRows hne).append fun heq => hne ?_)).flushed _ e _
    rw [← heq]
    exact (mem_of_findById hc).2

theorem updateCountAndUsed (h : Retained n k w) (credId : Bytes) (m : UInt32) (t : UInt64) :
    Keeps n k (Store.updateCountAndUsed credId m t) w :=
  Store.run_updateCountAndUsed (fun _ => h)
    (fun _ e hc _ => (h.withCreds (h.1.used hc)).flushed _ e _)
    (fun _ e hc _ => (h.withCreds (h.1.used hc)).flushed _ e _) fun _ _ _ _ => h.2

/-- A key is destroyed: it is not that of `k`. -/
theorem destroyKey (h : Retained n k w) (hkind : k.backend = .software ∨ D.primaryKind = k.backend)
    (hc : c.credId = k.credId → c.identity = k.identity) :
    (destroyKey D c).Run w
      (fun _ w' => Spared n k w'.log → Retained n k w' ∧ c.credId ≠ k.credId)
      (fun _ w' => Spared n k w'.log → Retained n k w')
      fun w' => Spared n k w'.log → FileHolds n k w' := by
  refine run_destroyKey (fun hskip _ => ⟨h, fun heq => hskip ?_⟩)
    (fun e _ hs => ⟨emits (w := w.withEnv e) h _, fun heq => ?_⟩) (fun _ _ => h.2)
    fun e _ => (emits (w := w.withEnv e) h _).2
  · rwa [(Credential.key_of_identity (hc heq)).2.1]
  · obtain ⟨-, hbackend, href⟩ := Credential.key_of_identity (hc heq)
    refine (hs.of_mem h.2.1 List.mem_cons_self).1 ?_
    rw [hbackend, href]

/-! ### The commands -/

variable (hkind : k.backend = .software ∨ D.primaryKind = k.backend)

include hkind

/-- Another row is stored, or given up. -/
theorem storeRow (h : Retained n k w) (hc : c.credId ≠ k.credId) :
    Keeps n k (storeRow D c) w := by
  have hdestroy : ∀ {w : World}, Retained n k w → (Swpasskey.destroyKey D c).Run w
      (fun _ w' => Spared n k w'.log → Retained n k w')
      (fun _ w' => Spared n k w'.log → Retained n k w')
      fun w' => Spared n k w'.log → FileHolds n k w' := fun h =>
    (h.destroyKey hkind fun heq => absurd heq hc).weaken fun _ _ h' hs => (h' hs).1
  exact run_storeRow (fun e _ _ => (h.withCreds (h.1.putRows hc)).flushed _ e _)
    (fun _ => hdestroy h) (fun _ e => hdestroy (h.flushed .put e false)) fun _ _ => h.2

/-- A row is replaced: it is not `k`. -/
theorem replaceRow (h : Retained n k w) (hold : old.credId = k.credId → old.identity = k.identity) :
    Keeps n k (replaceRow D old) w := by
  refine run_bind.mpr ((h.destroyKey hkind hold).weaken fun _ w' h' => ?_)
  refine run_bind.mpr (run_attempt.mpr ((run_whileOk (fun _ _ => Spared.mono)
    ((logGrows_credNeutral D).erase _) fun hs => ?_).mono (fun _ _ h'' => h'')
    (fun _ _ h'' => h'') fun _ h'' => h''))
  obtain ⟨hw', hne⟩ := h' hs
  exact hw'.erase fun heq => hne (Block.ext heq.symm)

theorem createCredential (h : Retained n k w) (q : MakeCredentialRequest) (uv : Bool) :
    Keeps n k (createCredential D q uv) w := by
  have hemits : ∀ e evs, Retained n k ((w.withEnv e).emits evs) := fun e evs =>
    emits (w := w.withEnv e) h evs
  refine run_bind.mpr (run_createRow (fun m credId now secret wrapped e _ _ => ?_)
    (fun _ _ _ _ => h) (fun _ _ => h.2) fun _ l _ _ _ e => ⟨fun _ => hemits e l,
      fun _ => (hemits e l).2⟩)
  set c := (q.template D).keyed (m.key D.primaryKind) credId now wrapped
  refine run_bind.mpr (run_gets.mpr (run_bind.mpr ?_))
  -- the rows to replace that have the id of `k` are `k`; the new row has another id
  refine (Run.forEach (I := fun rest w' => Spared n k w'.log → Retained n k w' ∧
      c.credId ≠ k.credId ∧ ∀ old ∈ rest, old.credId = k.credId → old.identity = k.identity)
    (fun old rest w' hw' => ?_) _ _ fun hs => ?_).weaken fun _ w' hw' => ?_
  · refine run_whileOk (fun _ _ => Spared.mono) ((logGrows_credNeutral D).replaceRow old)
      fun hs => ?_
    obtain ⟨hw, hc, hrest⟩ := hw' hs
    refine (hw.replaceRow hkind (hrest old List.mem_cons_self)).weaken fun _ _ h' hs' => ?_
    exact ⟨h' hs', hc, fun e he => hrest e (List.mem_cons_of_mem _ he)⟩
  · have hdrawn := hs.of_mem (v := .credIdDrawn credId) h.2.1 (by simp [creation])
    refine ⟨hemits e _, fun heq => hdrawn.2 (congrArg Event.credIdDrawn heq), fun old hold => ?_⟩
    exact h.1.unique old (List.mem_of_mem_filter (List.mem_of_mem_filter hold))
  · refine run_bind.mpr ((run_whileOk (fun _ _ => Spared.mono)
      ((logGrows_credNeutral D).storeRow c)
      fun hs => (hw' hs).1.storeRow hkind (hw' hs).2.1).weaken fun _ w'' hw'' => ?_)
    exact run_bind.mpr ((quiet_signDer _ _).run_of (fun _ _ => hw'') (fun _ _ => hw'')
      fun _ hs => (hw'' hs).2)

theorem registerWith (h : Retained n k w) (challenge application : Block 32) (key : SigningKey)
    (cert : Bytes) : Keeps n k (registerWith D challenge application key cert) w := by
  have hemits : ∀ e evs e', Retained n k (((w.withEnv e).emits evs).withEnv e') := fun e evs _ =>
    emits (w := w.withEnv e) h evs
  refine run_bind.mpr (run_createRow (fun m credId now secret wrapped e _ _ => ?_)
    (fun _ _ _ _ => h) (fun _ _ => h.2) fun _ l _ _ _ e => ⟨fun _ => hemits e l e,
      fun _ => (hemits e l e).2⟩)
  refine run_bind.mpr ((quiet_signDer _ _).run_of (fun sig e' => ?_)
    (fun _ e' _ => hemits e _ e') fun e' _ => (hemits e _ e').2)
  refine run_bind.mpr ((run_whileOk (fun _ _ => Spared.mono)
    ((logGrows_credNeutral D).storeRow _) fun hs => ?_).weaken fun _ _ h' => h')
  have hdrawn := Spared.of_mem (v := .credIdDrawn credId) hs h.2.1 (by simp [creation])
  exact (hemits e _ e').storeRow hkind fun heq => hdrawn.2 (congrArg Event.credIdDrawn heq)

theorem ctlDelete (h : Retained n k w) (credId : Bytes) : Keeps n k (ctlDelete D credId) w := by
  refine run_bind.mpr (run_gets.mpr ?_)
  rcases hrow : w.store.findById credId with _ | row
  · exact fun _ => h
  obtain ⟨hmem, hid⟩ := mem_of_findById hrow
  refine run_bind.mpr ((h.destroyKey hkind (h.1.unique row hmem)).weaken fun _ w' h' => ?_)
  refine run_bind.mpr (run_modify.mpr (run_whileOk (fun _ _ => Spared.mono)
    ((logGrows_credNeutral D).erase _) fun hs => ?_))
  obtain ⟨hw', hne⟩ := h' hs
  have hdropped : Retained n k { w' with next := none } := hw'
  exact hdropped.erase fun heq => hne (Block.ext (hid.trans heq.symm))

/-- A factory reset destroys the key of every row. -/
theorem factoryReset (h : Retained n k w) :
    Keeps n k (Store.factoryReset (Swpasskey.destroyKey D)) w := by
  refine run_bind.mpr (run_gets.mpr (run_bind.mpr ?_))
  refine (Run.forEach (I := fun rest w' => Spared n k w'.log → Retained n k w' ∧
      (∃ r ∈ rest, r.identity = k.identity) ∧
        ∀ r ∈ rest, r.credId = k.credId → r.identity = k.identity)
    (fun r rest w' hw' => ?_) _ _ fun _ => ⟨h, h.1.exists_mem, h.1.unique⟩).weaken
    fun _ w' hw' => ?_
  · refine run_whileOk (fun _ _ => Spared.mono) ((logGrows_credNeutral D).destroyKey r)
      fun hs => ?_
    obtain ⟨hw, ⟨r', hr', hid⟩, hrest⟩ := hw' hs
    refine (hw.destroyKey hkind (hrest r List.mem_cons_self)).weaken fun _ _ h' hs' => ?_
    obtain ⟨hw', hne⟩ := h' hs'
    refine ⟨hw', ⟨r', ?_, hid⟩, fun e he => hrest e (List.mem_cons_of_mem _ he)⟩
    refine (List.mem_cons.mp hr').resolve_left fun heq => hne ?_
    exact heq ▸ (Credential.key_of_identity hid).1
  · -- `k` was one of the rows, so nothing has been promised any more
    refine run_whileOk (fun _ _ => Spared.mono) (logs_wipe fun _ => Event.Work.inner) fun hs => ?_
    obtain ⟨r, hr, -⟩ := (hw' hs).2.1
    cases hr

omit hkind in
theorem restart (h : FileHolds n k w) : Retained n k w.restart := by
  obtain ⟨hn, s, hfile, hs⟩ := h
  have hlog : n ≤ w.restart.log.length := hn.trans (by simp [World.restart])
  refine ⟨?_, hlog, s, hfile, hs⟩
  simpa [World.restart, hfile] using hs

theorem rowOps : RowOps D (retainedFrame n k) where
  env _ _ h := h
  store w s hs h hsp := ⟨by rw [hs]; exact (h hsp).1, (h hsp).2⟩
  manager _ _ h := h
  dropNext _ h := h
  flushed w m e ok _ := whileOk_rel (fun _ _ => Spared.mono) (w.log_prefix_flushed m e ok)
    fun _ h => h.flushed m e ok
  event _ _ _ := whileOk_rel (fun _ _ => Spared.mono) (List.prefix_append _ _) fun _ h => h.emits _
  createCredential q uv := guarantees_whileOk (fun _ _ => Spared.mono)
    ((logGrows_pieces D).createCredential q uv) fun _ _ h => h.createCredential hkind q uv
  registerWith _ _ _ _ := guarantees_whileOk (fun _ _ => Spared.mono)
    ((logGrows_pieces D).registerWith _ _ _ _) fun _ _ h => h.registerWith hkind _ _ _ _
  ctlDelete _ := guarantees_whileOk (fun _ _ => Spared.mono) ((logGrows_pieces D).ctlDelete _)
    fun _ _ h => h.ctlDelete hkind _
  factoryReset := guarantees_whileOk (fun _ _ => Spared.mono) (logGrows_factoryReset D)
    fun _ _ h => h.factoryReset hkind

/-- What is retained stays so through a run in which nothing ends the promise. -/
theorem run (h : Retained n k w) (steps : List Step) :
    Spared n k (w.run D steps).log → Retained n k (w.run D steps) := by
  have hpieces := (rowOps (n := n) hkind).pieces (fun credId m t => guarantees_whileOk
    (fun _ _ => Spared.mono) ((logGrows_pieces D).updateCountAndUsed credId m t)
    fun _ _ h => h.updateCountAndUsed credId m t) fun _ _ h => h
  exact World.run_whileOk (fun _ _ => Spared.mono) hpieces (fun _ _ hw => hw)
    (fun _ _ _ hw => hw.emits _) (fun _ _ hw => restart hw) h steps

end Retained

/-! ### The acknowledgement -/

/-- A command that promises nothing to retain. -/
def Unregistering {ε α : Type} (f : α → Answer) (m : Cmd ε α) : Prop :=
  Returns m fun a => (f a).registered = none

theorem unregistering_buildAssertion (cred : Credential) (rpIdHash clientDataHash : Block 32)
    (flags : UInt8) (bump : Bool) (ext : ExtensionsIn) (number : Option ℕ) :
    Unregistering .cbor (buildAssertion D cred rpIdHash clientDataHash flags bump ext number) :=
  Returns.bind_right fun _ => Returns.bind_right fun _ => Returns.bind_right fun _ =>
    Returns.ite (Returns.bind_right fun _ => Returns.bind_right fun _ => Returns.pure rfl)
      (Returns.pure rfl)

theorem unregistering_assertFirst (q : GetAssertionRequest) (rpIdHash : Block 32) (uv : Bool)
    (first : Credential) (rest : List Credential) :
    Unregistering .cbor (assertFirst D q rpIdHash uv first rest) := by
  refine Returns.bind_right fun _ => Returns.bind_right fun _ => Returns.bind
    (unregistering_buildAssertion first _ _ _ _ _ _).attempt fun r hr => ?_
  rcases r with e | r
  · exact Returns.bind_right fun _ => Returns.throw e
  · exact Returns.pure (hr r rfl)

theorem unregistering_cmdGetAssertion (body : Bytes) :
    Unregistering .cbor (cmdGetAssertion D body) := by
  refine Returns.bind_right fun _ => Returns.bind_right fun q => Returns.bind_right fun s =>
    Returns.bind_right fun uv => ?_
  split
  · exact Returns.throw _
  · exact unregistering_assertFirst _ _ _ _ _

theorem unregistering_cmdGetNextAssertion : Unregistering .cbor (cmdGetNextAssertion D) := by
  refine Returns.bind_right fun st => ?_
  split
  · exact Returns.throw _
  split
  · exact Returns.bind_right fun _ => Returns.throw _
  refine Returns.bind_right fun _ => Returns.ite (Returns.bind_right fun _ => Returns.throw _) ?_
  refine Returns.bind_right fun _ => Returns.bind
    (unregistering_buildAssertion _ _ _ _ _ _ _).attempt fun r hr => ?_
  have hresult : Returns (ofExcept r : Cmd Status Reply)
      fun a => (Answer.cbor a).registered = none := by
    rcases r with e | r
    · exact Returns.throw e
    · exact Returns.pure (hr r rfl)
  exact Returns.ite (Returns.bind_right fun _ => hresult) hresult

theorem unregistering_u2fAuthenticate (p1 : UInt8) (data : Bytes) :
    Unregistering .u2f (u2fAuthenticate D p1 data) := by
  have hsign : ∀ cred challenge application enforce, Returns
      (signChallenge D cred challenge application enforce)
      fun r => (Answer.u2f r).registered = none := by
    intro cred challenge application enforce
    refine Returns.bind_right fun _ => Returns.bind_right fun _ => Returns.ite ?_ (Returns.pure rfl)
    exact Returns.bind_right fun _ => Returns.bind_right fun _ => Returns.pure rfl
  refine Returns.bind_right fun _ => Returns.bind_right fun _ => Returns.bind_right fun _ =>
    Returns.bind_right fun s => ?_
  dsimp only
  split
  · exact Returns.throw _
  refine Returns.bind_right fun _ => Returns.ite ?_ (hsign _ _ _ _).orFail
  exact Returns.bind_right fun _ => Returns.bind_right fun _ => (hsign _ _ _ _).orFail

/-- What an acknowledgement says of the state it is given in: the registered row is stored, and
what is stored is saved. -/
def Acknowledges (D : Device) (a : Answer) (w : World) : Prop :=
  ∀ credId pub, a.registered = some (credId, pub) → ∃ k ∈ w.store.creds, k.credId = credId ∧
    k.pub = pub ∧ k.backend = D.primaryKind ∧ ∃ s, w.file = some s ∧ s.creds = w.store.creds

/-- What `m` returns acknowledges no more than is stored and saved. -/
def Truthful {ε α : Type} (D : Device) (f : α → Answer) (m : Cmd ε α) (w : World) : Prop :=
  m.Run w (fun a w' => Acknowledges D (f a) w') (fun _ _ => True) fun _ => True

theorem Unregistering.truthful {ε α : Type} {f : α → Answer} {m : Cmd ε α}
    (h : Unregistering f m) (w : World) : Truthful D f m w :=
  (h w).weaken fun a _ ha _ _ hreg => by rw [ha] at hreg; cases hreg

/-- A row that was stored and saved is acknowledged. -/
theorem Acknowledges.of_put {a : Answer} {e : Env}
    (ha : a.registered = some (c.credId, c.pub)) (hc : c.backend = D.primaryKind) :
    Acknowledges D a ((w.withCreds (putRows c w.store.creds)).flushed .put e true) := by
  intro credId pub hreg
  obtain ⟨rfl, rfl⟩ := Prod.mk.inj (Option.some.inj (ha.symm.trans hreg))
  exact ⟨c, mem_putRows_self c _, rfl, rfl, hc, _, rfl, rfl⟩

theorem createCredential_truthful (q : MakeCredentialRequest) (uv : Bool) :
    Truthful D .cbor (createCredential D q uv) w := by
  refine run_bind.mpr (run_createRow (fun m credId now secret wrapped e _ _ => ?_)
    (fun _ _ _ => trivial) (fun _ => trivial) fun _ _ _ _ _ _ => ⟨trivial, trivial⟩)
  refine run_bind.mpr (run_gets.mpr (run_bind.mpr (run_onReturn.mpr fun _ w₂ _ => ?_)))
  refine run_bind.mpr (run_storeRow (fun e' _ => ?_)
    (fun _ => run_onReturn.mpr fun _ _ _ => trivial)
    (fun _ _ => run_onReturn.mpr fun _ _ _ => trivial) fun _ => trivial)
  refine run_bind.mpr ((quiet_signDer _ _).run_of (fun sig e₃ => ?_) (fun _ _ => trivial)
    fun _ => trivial)
  exact Acknowledges.of_put (w := w₂) rfl rfl

theorem registerWith_truthful (challenge application : Block 32) (key : SigningKey)
    (cert : Bytes) : Truthful D .u2f (registerWith D challenge application key cert) w := by
  refine run_bind.mpr (run_createRow (fun m credId now secret wrapped e _ _ => ?_)
    (fun _ _ _ => trivial) (fun _ => trivial) fun _ _ _ _ _ _ => ⟨trivial, trivial⟩)
  refine run_bind.mpr ((quiet_signDer _ _).run_of (fun sig e₂ => ?_) (fun _ _ => trivial)
    fun _ => trivial)
  exact run_bind.mpr (run_storeRow (fun e' _ => Acknowledges.of_put rfl rfl)
    (fun _ => run_onReturn.mpr fun _ _ _ => trivial)
    (fun _ _ => run_onReturn.mpr fun _ _ _ => trivial) fun _ => trivial)

theorem handleCbor_truthful (request : Bytes) : Truthful D .cbor (handleCbor D request) w := by
  rcases request with _ | ⟨cmd, body⟩
  · exact trivial
  refine run_ite.mpr ⟨fun _ => unregistering_cmdGetNextAssertion.truthful w, fun _ => ?_⟩
  refine run_bind.mpr (run_modify.mpr (run_ite.mpr ⟨fun _ => ?_, fun _ => run_ite.mpr
    ⟨fun _ => ?_, fun _ => run_ite.mpr ⟨fun _ => ?_, fun _ => run_ite.mpr ⟨fun _ => ?_, fun _ =>
      run_ite.mpr ⟨fun _ => ?_, fun _ => run_ite.mpr ⟨fun _ => ?_, fun _ => trivial⟩⟩⟩⟩⟩⟩))
  · exact Unregistering.truthful (Returns.gets fun _ => rfl) _
  · exact run_bind.mpr (run_onReturn.mpr fun q _ _ => createCredential_truthful q.1 q.2)
  · exact (unregistering_cmdGetAssertion body).truthful _
  · exact Unregistering.truthful (Returns.bind_right fun _ => Returns.bind_right fun _ =>
      Returns.pure rfl) _
  · refine Unregistering.truthful ((PinManager.handle_returns body).mono fun r hr => ?_) _
    cases r <;> first | exact hr.elim | rfl
  · exact Unregistering.truthful (Returns.bind_right fun _ => Returns.pure rfl) _

theorem handleU2f_truthful (apdu : Bytes) : Truthful D .u2f (handleU2f D apdu) w := by
  refine run_bind.mpr (run_require.mpr ⟨fun _ => ?_, fun _ => trivial⟩)
  split
  · exact trivial
  refine run_bind.mpr (run_require.mpr ⟨fun _ => run_ite.mpr ⟨fun _ => ?_, fun _ => run_ite.mpr
    ⟨fun _ => ?_, fun _ => run_ite.mpr ⟨fun _ => ?_, fun _ => trivial⟩⟩⟩, fun _ => trivial⟩)
  · exact Unregistering.truthful (f := .u2f) (Returns.pure rfl) w
  · refine run_bind.mpr (run_onReturn.mpr fun _ _ _ => run_bind.mpr (run_onReturn.mpr
      fun _ _ _ => run_bind.mpr (run_onReturn.mpr fun _ _ _ => run_orFail.mpr ?_)))
    exact run_bind.mpr (run_onReturn.mpr fun _ _ _ => run_bind.mpr (run_onReturn.mpr
      fun _ _ _ => run_bind.mpr (run_onReturn.mpr fun _ _ _ => registerWith_truthful _ _ _ _)))
  · exact (unregistering_u2fAuthenticate _ _).truthful w

/-- No call acknowledges what is not stored and saved. -/
theorem answer_truthful (c : Call) : Truthful D id (answer D c) w := by
  have hfinish : ∀ {ε α : Type} {m : Cmd ε α} (f : α → Answer) (r : ε → Refusal),
      Truthful D f m w → Truthful D id (finish m f r) w := fun f r h =>
    run_finish (h.mono (fun _ _ h' _ => ⟨h', trivial⟩) (fun _ _ _ => trivial) fun _ _ => trivial)
  have hdone : ∀ {ε α : Type} (m : Cmd ε α) (r : ε → Refusal),
      Truthful D id (finish m (fun _ => .done) r) w := fun m r =>
    hfinish _ r (Unregistering.truthful (fun _ => run_onReturn.mpr fun _ _ _ => rfl) w)
  cases c with
  | cbor request => exact hfinish _ _ (handleCbor_truthful request)
  | u2f apdu => exact hfinish _ _ (handleU2f_truthful apdu)
  | ctlReset => exact hdone _ _
  | ctlSetPin pin => exact hdone _ _
  | ctlDelete credId => exact hdone _ _
  | setSerial serial => exact hdone _ _
  | tpmParams => exact hdone _ _

/-- **An acknowledged credential is not lost.** When a call of a run of a fresh installation
answers that it has registered a credential, a row `k` with the id and the public key of
the answer is stored. In every continuation of the run, whatever else is called or fails
and wherever the process dies and restarts, as long as the key of `k` is not destroyed and
its id is not drawn again, the id finds a row that differs from `k` at most in its counter
and its time of use, and the persister holds a store in which it does. -/
theorem acknowledged_retained (D : Device) (env : Env) (pre : List Step) (c : Call) (e : Env)
    (a : Answer) (credId : Block 32) (pub : P256PublicKey)
    (hanswered : (((World.fresh env).run D (pre ++ [.call c e])).log).getLast? =
      some (.answered c a))
    (hregistered : a.registered = some (credId, pub)) :
    ∃ k ∈ ((World.fresh env).run D (pre ++ [.call c e])).store.creds,
      k.credId = credId ∧ k.pub = pub ∧ ∀ post : List Step,
        (∀ ev ∈ ((World.fresh env).run D (pre ++ [.call c e] ++ post)).log.drop
            ((World.fresh env).run D (pre ++ [.call c e])).log.length,
          ev ≠ .keyDestroyed k.backend k.keyRef ∧ ev ≠ .credIdDrawn credId) →
        (∃ r, ((World.fresh env).run D (pre ++ [.call c e] ++ post)).store.findById credId.bytes =
            some r ∧ r.identity = k.identity) ∧
          ∃ s r, ((World.fresh env).run D (pre ++ [.call c e] ++ post)).file = some s ∧
            s.findById credId.bytes = some r ∧ r.identity = k.identity := by
  have hids := (DistinctIds.run D env (pre ++ [.call c e])).1
  have hack : Acknowledges D a ((World.fresh env).run D (pre ++ [.call c e])) := by
    revert hanswered
    rw [World.run, List.foldl_append]
    refine World.call_of_run (P := fun w' => w'.log.getLast? = some (.answered c a) →
      Acknowledges D a w') ((answer_truthful c).mono ?_ ?_ ?_)
    · intro a' w' ha' hlast
      obtain rfl : a' = a := by simpa [World.emits] using hlast
      exact ha'
    · intro r w' _ hlast
      simp [World.emits] at hlast
    · intro w' _ hlast
      simp [World.restart] at hlast
  obtain ⟨k, hk, rfl, rfl, hbackend, s, hfile, hs⟩ := hack _ _ hregistered
  refine ⟨k, hk, rfl, rfl, fun post hspared => ?_⟩
  set w := (World.fresh env).run D (pre ++ [.call c e]) with hw
  have hrun : (World.fresh env).run D (pre ++ [.call c e] ++ post) = w.run D post := by
    rw [hw, World.run, List.foldl_append]
    rfl
  rw [hrun] at hspared ⊢
  have hholds : Holds k w.store.creds := Holds.of_mem hids hk
  have hw₀ : Retained w.log.length k w := ⟨hholds, le_rfl, s, hfile, hs.symm ▸ hholds⟩
  obtain ⟨hmem, -, s', hfile', hs'⟩ := hw₀.run (.inr hbackend.symm) post hspared
  obtain ⟨r, hr, hrid⟩ := hs'.findById
  exact ⟨hmem.findById, s', r, hfile', hr, hrid⟩

/-- A credential is registered, the registration of another one cannot be saved, and the daemon
is restarted. -/
theorem acknowledged_retained_restarted :
    ((World.fresh (.calm 0)).run .plain
      ([] ++ [.call (.makeCredential [0x61] [1]) (.calm 1)] ++
        [.call (.makeCredential [0x62] [2]) { Env.calm 2 with save := Stream'.const false },
          .restart (.calm 3)])).store.findById (Block.replicate 32 1).bytes ≠ none := by
  obtain ⟨k, hk, -, -, h⟩ := acknowledged_retained .plain (.calm 0) []
    (.makeCredential [0x61] [1]) (.calm 1)
    (.cbor (.attestation {
      rpIdHash := Device.plain.provider.sha256 [0x61]
      flags := kFlagUp ||| kFlagAt
      signCount := 1
      attested := some (Device.plain.aaguid, Block.replicate 32 1,
        ⟨Block.replicate 32 1, Block.replicate 32 1⟩)
      extensions := [] } [1]))
    (Block.replicate 32 1) ⟨Block.replicate 32 1, Block.replicate 32 1⟩ (by decide +kernel) rfl
  -- the key destroyed on the way is that of the other credential
  have hpost := h [.call (.makeCredential [0x62] [2]) { Env.calm 2 with
    save := Stream'.const false }, .restart (.calm 3)] (by
    clear h
    revert k
    decide +kernel)
  obtain ⟨⟨r, hr, -⟩, -⟩ := hpost
  rw [hr]
  exact Option.some_ne_none r

end Swpasskey
