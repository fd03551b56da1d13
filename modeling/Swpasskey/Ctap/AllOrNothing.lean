import Swpasskey.Ctap.Dangling

/-!
# makeCredential, all or nothing

When makeCredential fails, the rows should be what they were, and what the backends made on
the way should have been destroyed. `cmd_make_credential` has an early return after each of
its steps; only the failures of the first and of the last but one are cleaned up after. A
failed call has left everything as it was if (and, for a new id, only if) it did not get past the
checks, or got no key, or could not store its row and had not erased another
(`allOrNothing_iff`).
-/

namespace Swpasskey.MakeCredential

open Proc Store

variable (D : Device)

/-- If the call fails, the rows are those from before, and what was made in the call has been
destroyed. -/
def AllOrNothing (body : Bytes) (w : World) : Prop :=
  ∀ r w', cmdMakeCredential D body w = (.err r, w') →
    w'.store.creds.Perm w.store.creds ∧
      ∃ evs, w'.log = w.log ++ evs ∧ made evs ⊆ gone evs

/-- From the key generation on, the call succeeds or fails at a point where nothing is left
to clean up: there is no key; or the row cannot be stored, and no row of the same account
has been erased to make way for it. -/
structure CreatesCleanly (q : MakeCredentialRequest) (uv : Bool) (w : World) : Prop where
  /-- The random generator and the wrapping of the secret do not fail. -/
  createRow : ∀ r w₁, createRow D (q.template D) w = (.err r, w₁) → w.env.generate.head = none
  /-- A failure to store the row does not follow the erasure of an old one. -/
  storeRow : ∀ key c w₁ w₂ r w₃, Swpasskey.createRow D (q.template D) w = (.ok (key, c), w₁) →
    forEach (replaceRow D) (w₁.store.sameAccount c) w₁ = (.ok (), w₂) →
    Swpasskey.storeRow D c w₂ = (.err r, w₃) → .flushed .erase true ∉ w₂.log.drop w₁.log.length
  /-- The signature over the stored row does not fail. -/
  attest : ∀ key c w₁ w₂ w₃ r w₄, Swpasskey.createRow D (q.template D) w = (.ok (key, c), w₁) →
    forEach (replaceRow D) (w₁.store.sameAccount c) w₁ = (.ok (), w₂) →
    Swpasskey.storeRow D c w₂ = (.ok (), w₃) → attest D q uv key c w₃ ≠ (.err r, w₄)

/-- The checks refuse the call, or what follows them leaves nothing to clean up. -/
def HoldsWhen (body : Bytes) (w : World) : Prop :=
  ∀ q uv w₀, makeCredentialChecks D body w = (.ok (q, uv), w₀) → CreatesCleanly D q uv w₀

/-- The random generator does not draw the id of a stored row. -/
def DrawsNewId (body : Bytes) (w : World) : Prop :=
  ∀ q uv w₀ key c w₁, makeCredentialChecks D body w = (.ok (q, uv), w₀) →
    createRow D (q.template D) w₀ = (.ok (key, c), w₁) → c.credId ∉ ids w.store.creds

/-! ### What each part leaves behind -/

/-- The frame of the checks: no row is touched, and nothing made or destroyed. -/
def checking : Frame World :=
  Frame.ofRel (fun w w' => w'.store.creds = w.store.creds ∧
      ∃ evs, w'.log = w.log ++ evs ∧ made evs = [] ∧ gone evs = [])
    (fun _ => ⟨rfl, [], (List.append_nil _).symm, rfl, rfl⟩) <| by
      rintro w w' w'' ⟨hcreds, evs, hlog, hmade, hgone⟩ ⟨hcreds', evs', hlog', hmade', hgone'⟩
      refine ⟨hcreds'.trans hcreds, evs ++ evs', ?_, ?_, ?_⟩
      · rw [hlog', hlog, List.append_assoc]
      · rw [made_append, hmade, hmade']
        rfl
      · rw [gone_append, hgone, hgone']
        rfl

theorem checkOps : CheckOps D checking where
  env _ _ := ⟨rfl, [], (List.append_nil _).symm, rfl, rfl⟩
  prompted _ _ _ := ⟨rfl, _, rfl, rfl, rfl⟩
  verify _ _ _ _ _ := Guarantees.of_run fun _ => PinManager.run_verify
    (fun _ _ => ⟨rfl, [], (List.append_nil _).symm, rfl, rfl⟩)
    (fun _ _ => ⟨rfl, [], (List.append_nil _).symm, rfl, rfl⟩)
    (fun _ _ _ _ _ _ _ _ _ => ⟨rfl, _, rfl, rfl, rfl⟩)
    fun _ => ⟨rfl, [], (List.append_nil _).symm, rfl, rfl⟩

/-- The frame of a replacement: the rows are the same up to order, unless an erasure was
saved. -/
def replacing : Frame World where
  rel w w' := ∃ evs, w'.log = w.log ++ evs ∧ made evs = [] ∧
    (.flushed .erase true ∉ evs → w'.store.creds.Perm w.store.creds) ∧
    (.flushed .erase true ∈ evs → w'.store.creds.length < w.store.creds.length)
  refl _ := ⟨[], (List.append_nil _).symm, rfl, fun _ => .refl _, fun h => by cases h⟩
  trans := by
    rintro w w' w'' ⟨evs, hlog, hmade, hkept, hless⟩ ⟨evs', hlog', hmade', hkept', hless'⟩
    refine ⟨evs ++ evs', ?_, ?_, fun hno => ?_, fun hyes => ?_⟩
    · rw [hlog', hlog, List.append_assoc]
    · rw [made_append, hmade, hmade']
      rfl
    · rw [List.mem_append, not_or] at hno
      exact (hkept' hno.2).trans (hkept hno.1)
    · have hle : w'.store.creds.length ≤ w.store.creds.length := by
        by_cases h : .flushed .erase true ∈ evs
        · exact (hless h).le
        · exact (hkept h).length_eq.le
      have hle' : w''.store.creds.length ≤ w'.store.creds.length := by
        by_cases h : .flushed .erase true ∈ evs'
        · exact (hless' h).le
        · exact (hkept' h).length_eq.le
      rcases List.mem_append.mp hyes with h | h
      · exact lt_of_le_of_lt hle' (hless h)
      · exact lt_of_lt_of_le (hless' h) hle
  lost _ _ := True
  lost_of_rel _ := trivial
  trans_lost _ _ := trivial

variable {D}

theorem guarantees_erase (credId : Bytes) : Guarantees replacing (Store.erase credId) := by
  intro w
  refine run_erase (fun _ => replacing.refl w) (fun c e hc => ?_) (fun c e hc => ?_)
    fun _ _ _ => trivial
  · have hlen := (eraseRows_perm hc).length_eq
    exact ⟨_, rfl, rfl, fun h => absurd List.mem_cons_self h, fun _ => by
      rw [hlen]
      exact Nat.lt_succ_self _⟩
  · refine ⟨_, rfl, rfl, fun _ => ?_, fun h => by simp at h⟩
    exact ((eraseRows_perm hc).trans (List.perm_append_singleton _ _).symm).symm

theorem guarantees_replaceRow (old : Credential) : Guarantees replacing (replaceRow D old) := by
  refine Guarantees.bind (fun w => ?_) fun _ => (guarantees_erase _).attempt.bind fun _ =>
    Guarantees.pure _
  exact run_destroyKey (fun _ => replacing.refl w)
    (fun _ _ => ⟨_, rfl, rfl, fun _ => .refl _, fun h => by simp at h⟩) (fun _ => trivial)
    fun _ => trivial

/-- A new row: what was made is what it refers to. -/
structure Created (D : Device) (c : Credential) (w w₁ : World) : Prop where
  backend : c.backend = D.primaryKind
  creds : w₁.store.creds = w.store.creds
  log : ∃ evs, w₁.log = w.log ++ evs ∧ made evs = c.resources

/-- `createRow` gets no key and leaves no trace; or it has a key and fails, and the key is
left; or it returns a row. -/
theorem createRow_spec (template : Credential) (w : World) :
    (createRow D template).Run w (fun kc w₁ => Created D kc.2 w w₁)
      (fun _ w₁ => w₁.store.creds = w.store.creds ∧ ∃ evs, w₁.log = w.log ++ evs ∧ gone evs = [] ∧
        (w.env.generate.head = none ∧ made evs = [] ∨ w.env.generate.head ≠ none ∧ made evs ≠ []))
      fun _ => True := by
  refine run_createRow (fun m credId now secret wrapped e _ _ => ?_) (fun r e hm => ?_)
    (fun _ => trivial)
    fun m l hm hl r e => ⟨?_, trivial⟩
  · exact ⟨rfl, rfl, _, rfl, made_creation D template m credId now secret wrapped⟩
  · exact ⟨rfl, [], (List.append_nil _).symm, rfl, .inl ⟨hm, rfl⟩⟩
  · refine ⟨rfl, l, rfl, gone_of_partialCreation hl, .inr ⟨by simp [hm], ?_⟩⟩
    obtain rfl | ⟨credId, rfl⟩ := hl
    · exact List.cons_ne_nil _ _
    · exact List.cons_ne_nil _ _

/-- A row that cannot be stored is destroyed; a row that can is there. -/
theorem storeRow_spec {c : Credential} (hc : c.backend = D.primaryKind) (w : World) :
    (storeRow D c).Run w (fun _ w' => c ∈ w'.store.creds)
      (fun _ w' => w'.store.creds = w.store.creds ∧
        ∃ evs, w'.log = w.log ++ evs ∧ made evs = [] ∧ c.resources ⊆ gone evs)
      fun _ => True := by
  have hdestroy : ∀ (evs : List Event) (r : Status) (w₁ : World), w₁.store.creds = w.store.creds →
      w₁.log = w.log ++ evs → made evs = [] →
      (destroyKey D c).Run w₁ (fun _ w' => w'.store.creds = w.store.creds ∧
        ∃ evs, w'.log = w.log ++ evs ∧ made evs = [] ∧ c.resources ⊆ gone evs)
        (fun _ w' => w'.store.creds = w.store.creds ∧
          ∃ evs, w'.log = w.log ++ evs ∧ made evs = [] ∧ c.resources ⊆ gone evs) fun _ => True := by
    intro evs r w₁ hcreds hlog hmade
    refine run_destroyKey (fun hskip => absurd (.inr hc.symm) hskip) (fun e _ => ?_)
      (fun _ => trivial) fun _ => trivial
    refine ⟨hcreds, evs ++ [.keyDestroyed c.backend c.keyRef, .secretDestroyed c.backend
      c.credRandom],
      ?_, ?_, ?_⟩
    · change w₁.log ++ _ = _
      rw [hlog, List.append_assoc]
    · rw [made_append, hmade]
      rfl
    · rw [gone_append]
      exact List.subset_append_right _ _
  -- a failed put, and a put whose write failed, both end in `destroy`
  refine run_storeRow (fun e _ => mem_putRows_self c _) (fun r => ?_) (fun r e => ?_)
    fun _ => trivial
  · exact hdestroy [] r w rfl (List.append_nil _).symm rfl
  · exact hdestroy _ r _ rfl rfl rfl

theorem forEach_replaceRow_ne_err (l : List Credential) {w w' : World} {r : Status} :
    forEach (replaceRow D) l w ≠ (.err r, w') := by
  have h := Run.forEach (E := fun _ _ => False) (C := fun _ => True) (I := fun _ _ => True)
    (f := replaceRow D) (fun c _ _ _ => ?_) l w trivial
  · exact fun hr => h.err hr
  · refine run_bind.mpr (run_destroyKey (fun _ => ?_) (fun _ _ => ?_) (fun _ => trivial)
      fun _ => trivial)
    · exact run_bind.mpr (run_attempt.mpr (run_erase (fun _ => trivial) (fun _ _ _ => trivial)
        (fun _ _ _ => trivial) fun _ _ _ => trivial))
    · exact run_bind.mpr (run_attempt.mpr (run_erase (fun _ => trivial) (fun _ _ _ => trivial)
        (fun _ _ _ => trivial) fun _ _ _ => trivial))

/-- The points at which the call can fail. -/
theorem cmdMakeCredential_eq_err {body : Bytes} {w w' : World} {r : Status}
    (h : cmdMakeCredential D body w = (.err r, w')) :
    makeCredentialChecks D body w = (.err r, w') ∨
    ∃ q uv w₀, makeCredentialChecks D body w = (.ok (q, uv), w₀) ∧
      (createRow D (q.template D) w₀ = (.err r, w') ∨
      ∃ key c w₁, createRow D (q.template D) w₀ = (.ok (key, c), w₁) ∧
        ∃ w₂, forEach (replaceRow D) (w₁.store.sameAccount c) w₁ = (.ok (), w₂) ∧
          (storeRow D c w₂ = (.err r, w') ∨
          ∃ w₃, storeRow D c w₂ = (.ok (), w₃) ∧ attest D q uv key c w₃ = (.err r, w'))) := by
  rcases bind_apply_eq_err h with hc | ⟨⟨q, uv⟩, w₀, hc, hcreate⟩
  · exact .inl hc
  refine .inr ⟨q, uv, w₀, hc, ?_⟩
  rcases bind_apply_eq_err hcreate with hr | ⟨⟨key, c⟩, w₁, hr, hrest⟩
  · exact .inl hr
  refine .inr ⟨key, c, w₁, hr, ?_⟩
  -- after the row is made: the replacements, which never fail, then the put
  have hloop : (forEach (replaceRow D) (w₁.store.sameAccount c) >>= fun _ =>
      storeRow D c >>= fun _ =>
    attest D q uv key c) w₁ = (.err r, w') := hrest
  rcases bind_apply_eq_err hloop with hl | ⟨_, w₂, hl, hstore⟩
  · exact absurd hl (forEach_replaceRow_ne_err _)
  refine ⟨w₂, hl, ?_⟩
  rcases bind_apply_eq_err hstore with hs | ⟨_, w₃, hs, hattest⟩
  · exact .inl hs
  · exact .inr ⟨w₃, hs, hattest⟩

/-- The rows and the log after a successful replacement. -/
theorem loop_spec {c : Credential} {w₀ w₁ w₂ : World} (hc : Created D c w₀ w₁)
    (h : forEach (replaceRow D) (w₁.store.sameAccount c) w₁ = (.ok (), w₂)) :
    ∃ evs, w₂.log = w₁.log ++ evs ∧ made evs = [] ∧ evs = w₂.log.drop w₁.log.length ∧
      (.flushed .erase true ∉ evs → w₂.store.creds.Perm w₀.store.creds) ∧
      (.flushed .erase true ∈ evs → w₂.store.creds.length < w₀.store.creds.length) := by
  obtain ⟨evs, hlog, hmade, hkept, hless⟩ :=
    ((Guarantees.forEach guarantees_replaceRow _).run w₁).ok h
  rw [hc.creds] at hkept hless
  exact ⟨evs, hlog, hmade, by rw [hlog, List.drop_left], hkept, hless⟩

/-! ### The condition -/

theorem allOrNothing_of_holdsWhen {body : Bytes} {w : World} (h : HoldsWhen D body w) :
    AllOrNothing D body w := by
  intro r w' hw'
  have hchecks := ((checkOps D).makeCredentialChecks body).run w
  rcases cmdMakeCredential_eq_err hw' with hc | ⟨q, uv, w₀, hc, hcreate⟩
  · obtain ⟨hcreds, evs, hlog, hmade, -⟩ := hchecks.err hc
    exact ⟨.of_eq hcreds, evs, hlog, hmade ▸ List.nil_subset _⟩
  obtain ⟨hcreds₀, evs₀, hlog₀, hmade₀, -⟩ := hchecks.ok hc
  have hclean := h q uv w₀ hc
  rcases hcreate with hr | ⟨key, c, w₁, hr, w₂, hl, hs | ⟨w₃, hs, ha⟩⟩
  · -- no key
    obtain ⟨hcreds, evs, hlog, -, ⟨-, hmade⟩ | ⟨hkey, -⟩⟩ := (createRow_spec _ w₀).err hr
    · refine ⟨.of_eq (hcreds.trans hcreds₀), evs₀ ++ evs, ?_, ?_⟩
      · rw [hlog, hlog₀, List.append_assoc]
      · rw [made_append, hmade₀, hmade]
        exact List.nil_subset _
    · exact absurd (hclean.createRow r w' hr) hkey
  · -- the row could not be stored
    have hnew : Created D c w₀ w₁ := (createRow_spec _ w₀).ok hr
    obtain ⟨evs₂, hlog₂, hmade₂, hdrop, hkept, -⟩ := loop_spec hnew hl
    obtain ⟨hcreds₃, evs₃, hlog₃, hmade₃, hgone⟩ := (storeRow_spec hnew.backend w₂).err hs
    obtain ⟨evs₁, hlog₁, hmade₁⟩ := hnew.log
    have hnot := hclean.storeRow key c w₁ w₂ r w' hr hl hs
    rw [← hdrop] at hnot
    refine ⟨.trans (.of_eq hcreds₃) ((hkept hnot).trans (.of_eq hcreds₀)),
      evs₀ ++ (evs₁ ++ (evs₂ ++ evs₃)), ?_, ?_⟩
    · rw [hlog₃, hlog₂, hlog₁, hlog₀]
      simp only [List.append_assoc]
    · rw [made_append, made_append, made_append, hmade₀, hmade₁, hmade₂, hmade₃]
      simp only [gone_append, List.nil_append, List.append_nil]
      intro x hx
      simp only [List.mem_append]
      exact .inr (.inr (.inr (hgone hx)))
  · exact absurd ha (hclean.attest key c w₁ w₂ w₃ r w' hr hl hs)

theorem cmdMakeCredential_err {body : Bytes} {w w₀ w' : World}
    {q : MakeCredentialRequest} {uv : Bool}
    {r : Status} (hc : makeCredentialChecks D body w = (.ok (q, uv), w₀))
    (h : createCredential D q uv w₀ = (.err r, w')) : cmdMakeCredential D body w = (.err r, w') :=
  (bind_apply_ok hc).trans h

theorem createCredential_eq {w₀ w₁ w₂ : World} {q : MakeCredentialRequest} {uv : Bool}
    {key : SigningKey} {c : Credential}
    (hr : createRow D (q.template D) w₀ = (.ok (key, c), w₁))
    (hl : forEach (replaceRow D) (w₁.store.sameAccount c) w₁ = (.ok (), w₂)) :
    createCredential D q uv w₀ = (storeRow D c >>= fun _ => attest D q uv key c) w₂ := by
  have hloop : createCredential D q uv w₀ = (forEach (replaceRow D) (w₁.store.sameAccount c) >>=
      fun _ => storeRow D c >>= fun _ => attest D q uv key c) w₁ := bind_apply_ok hr
  rw [hloop, bind_apply_ok hl]

theorem holdsWhen_of_allOrNothing {body : Bytes} {w : World} (hnew : DrawsNewId D body w)
    (h : AllOrNothing D body w) : HoldsWhen D body w := by
  intro q uv w₀ hc
  obtain ⟨hcreds₀, evs₀, hlog₀, -, hgone₀⟩ :=
    (((checkOps D).makeCredentialChecks body).run w).ok hc
  refine ⟨fun r w₁ hr => ?_, fun key c w₁ w₂ r w₃ hr hl hs hmem => ?_,
    fun key c w₁ w₂ w₃ r w₄ hr hl hs ha => ?_⟩
  · -- a key without a row would be left behind
    obtain ⟨-, evs, hlog, hgone, ⟨hkey, -⟩ | ⟨-, hmade⟩⟩ := (createRow_spec _ w₀).err hr
    · exact hkey
    obtain ⟨-, all, hall, hsub⟩ := h r w₁ (cmdMakeCredential_err hc (bind_apply_err hr))
    obtain rfl : all = evs₀ ++ evs := by
      rw [hlog, hlog₀, List.append_assoc] at hall
      exact (List.append_cancel_left hall).symm
    rw [gone_append, hgone₀, hgone, made_append] at hsub
    exact absurd (List.append_eq_nil_iff.mp (List.subset_nil.mp hsub)).2 hmade
  · -- an old row would be missing
    have hw : Created D c w₀ w₁ := (createRow_spec _ w₀).ok hr
    obtain ⟨evs₂, -, -, hdrop, -, hless⟩ := loop_spec hw hl
    have hrows := ((storeRow_spec hw.backend w₂).err hs).1
    have hperm := (h r w₃ (cmdMakeCredential_err hc
      ((createCredential_eq hr hl).trans (bind_apply_err hs)))).1
    rw [← hdrop] at hmem
    have hlt := hless hmem
    rw [hrows] at hperm
    rw [hcreds₀, ← hperm.length_eq] at hlt
    exact lt_irrefl _ hlt
  · -- the new row would still be there
    have hw : Created D c w₀ w₁ := (createRow_spec _ w₀).ok hr
    have hstored : c ∈ w₄.store.creds := by
      have hmem := (storeRow_spec hw.backend w₂).ok hs
      obtain ⟨e, -, rfl⟩ : ∃ e, w₃.env.Later e ∧ w₄ = w₃.withEnv e :=
        ((quiet_signDer _ _).bind fun _ => Guarantees.pure _ : Quiet (attest D q uv key c)).apply ha
      exact hmem
    have hperm := (h r w₄ (cmdMakeCredential_err hc
      ((createCredential_eq hr hl).trans ((bind_apply_ok hs).trans ha)))).1
    exact hnew q uv w₀ key c w₁ hc hr (List.mem_map_of_mem (hperm.subset hstored))

/-- **makeCredential, all or nothing.** If the checks refuse the call, or it gets no key, or
it cannot store its row and has not erased another, or it succeeds, then a failed call has
left the rows as they were and nothing behind in the backends. If the id the random
generator draws is not that of a stored row, these are the only cases. -/
theorem allOrNothing_iff (D : Device) (body : Bytes) (w : World) :
    (HoldsWhen D body w → AllOrNothing D body w) ∧
      (DrawsNewId D body w → AllOrNothing D body w → HoldsWhen D body w) :=
  ⟨allOrNothing_of_holdsWhen, holdsWhen_of_allOrNothing⟩

theorem AllOrNothing.creds_length {body : Bytes} {w : World} {r : Status}
    (h : AllOrNothing D body w)
    (herr : (cmdMakeCredential D body w).1 = .err r) :
    (cmdMakeCredential D body w).2.store.creds.length = w.store.creds.length :=
  (h r _ (Prod.ext herr rfl)).1.length_eq

/-- A credential is replaced: the old row is erased, and the new one cannot be saved. The
call fails, and the account has no credential. -/
theorem not_allOrNothing : ¬ AllOrNothing .plain (Call.makeCredentialBody [0x61] [1])
    (((World.fresh (.calm 0)).run .plain [.call (.makeCredential [0x61] [1]) (.calm 1)]).withEnv
      { Env.calm 2 with save := Stream'.cons true (Stream'.const false) }) := by
  intro h
  have herr : (cmdMakeCredential .plain (Call.makeCredentialBody [0x61] [1])
      (((World.fresh (.calm 0)).run .plain [.call (.makeCredential [0x61] [1]) (.calm 1)]).withEnv
        { Env.calm 2 with save := Stream'.cons true (Stream'.const false) })).1 = .err .other := by
    decide +kernel
  have hrows := h.creds_length herr
  revert hrows
  decide +kernel

end Swpasskey.MakeCredential
