import Swpasskey.Ctap.Frames
import Swpasskey.Store.Rows

/-!
# No dangling credential

Keys are destroyed **before** their row is erased, in a replacement and in `ctl_delete`, and
an erasure that cannot be saved puts the row back. So a row never refers to a destroyed key
or secret (`rows_alive`) exactly as long as no save of an erasure fails. A factory reset
also destroys first, but it empties memory whatever the persister answers.

Keys and wrapped secrets are treated alike, as resources that are made and destroyed. The
invariant `Held` is about a list of rows and the log; a row that has been made but not yet
stored counts as held too, in front of the stored ones.
-/

namespace Swpasskey

open Proc Store

/-- What a backend keeps for a row. -/
inductive Resource
  | key (kind : BackendKind) (ref : Bytes)
  | secret (kind : BackendKind) (wrapped : Bytes)
  deriving DecidableEq

/-- The resource an event makes. -/
def Event.made : Event → Option Resource
  | keyCreated kind ref => some (.key kind ref)
  | secretCreated kind wrapped => some (.secret kind wrapped)
  | _ => none

/-- The resource an event destroys. -/
def Event.gone : Event → Option Resource
  | keyDestroyed kind ref => some (.key kind ref)
  | secretDestroyed kind wrapped => some (.secret kind wrapped)
  | _ => none

/-- The resources made, in order. -/
def made (log : List Event) : List Resource := log.filterMap Event.made

/-- The resources destroyed, in order. -/
def gone (log : List Event) : List Resource := log.filterMap Event.gone

theorem made_append (l l' : List Event) : made (l ++ l') = made l ++ made l' :=
  List.filterMap_append

theorem gone_append (l l' : List Event) : gone (l ++ l') = gone l ++ gone l' :=
  List.filterMap_append

/-- The resources of a row. -/
def Credential.resources (c : Credential) : List Resource :=
  [.key c.backend c.keyRef, .secret c.backend c.credRandom]

/-- The resources of all rows. -/
def resources (l : List Credential) : List Resource := l.flatMap Credential.resources

/-- What `createRow` makes is what the new row refers to. -/
theorem made_creation (D : Device) (template : Credential) (m : KeyMaterial) (credId : Block 32)
    (now : UInt64) (secret : Block 64) (wrapped : Bytes) :
    made (creation D m credId secret wrapped) =
      (template.keyed (m.key D.primaryKind) credId now wrapped).resources := by
  have hkey : (template.keyed (m.key D.primaryKind) credId now wrapped).keyRef =
      (m.key D.primaryKind).ref := by
    unfold Credential.keyRef Credential.keyed KeyMaterial.key
    split <;> rfl
  rw [Credential.resources, hkey]
  rfl

theorem gone_of_partialCreation {D : Device} {m : KeyMaterial} {l : List Event}
    (h : PartialCreation D m l) : gone l = [] := by
  obtain rfl | ⟨credId, rfl⟩ := h
  · rfl
  · rfl

/-- A log without restarts, in which no save of an erasure fails and no backend makes the
same thing twice. -/
structure Regular (log : List Event) : Prop where
  alive : .restarted ∉ log
  erased : .flushed .erase false ∉ log
  nodup : (made log).Nodup

theorem Regular.mono {l l' : List Event} (h : l <+: l') (hr : Regular l') : Regular l where
  alive hmem := hr.alive (h.subset hmem)
  erased hmem := hr.erased (h.subset hmem)
  nodup := (h.sublist.filterMap _).nodup hr.nodup

/-! ### Rows and their resources -/

/-- The rows have resources of their own, which have been made and not destroyed; and
nothing has been destroyed that was not made. -/
structure Held (l : List Credential) (log : List Event) : Prop where
  nodup : (resources l).Nodup
  made : resources l ⊆ made log
  alive : (resources l).Disjoint (gone log)
  gone_made : gone log ⊆ Swpasskey.made log

namespace Held

variable {l l' : List Credential} {log evs : List Event} {c old : Credential}

theorem sublist (h : Held l log) (hl : l'.Sublist l) : Held l' log where
  nodup := (hl.flatMap _).nodup h.nodup
  made := List.Subset.trans (hl.flatMap _).subset h.made
  alive := List.disjoint_of_subset_left (hl.flatMap _).subset h.alive
  gone_made := h.gone_made

theorem of_perm (h : Held l log) (hl : (resources l).Perm (resources l')) : Held l' log where
  nodup := hl.nodup_iff.mp h.nodup
  made := List.Subset.trans hl.symm.subset h.made
  alive := List.disjoint_of_subset_left hl.symm.subset h.alive
  gone_made := h.gone_made

theorem perm (h : Held l log) (hl : l.Perm l') : Held l' log := h.of_perm (hl.flatMap_right _)

/-- Events that destroy nothing. -/
theorem append (h : Held l log) (hevs : gone evs = []) : Held l (log ++ evs) := by
  have hgone : gone (log ++ evs) = gone log := by rw [gone_append, hevs, List.append_nil]
  have hmade : Swpasskey.made log ⊆ Swpasskey.made (log ++ evs) := by
    rw [made_append]
    exact List.subset_append_left _ _
  refine ⟨h.nodup, List.Subset.trans h.made hmade, ?_, ?_⟩
  · rw [hgone]
    exact h.alive
  · rw [hgone]
    exact List.Subset.trans h.gone_made hmade

/-- The first row is given up, and its resources, if anything, destroyed. -/
theorem release (h : Held (c :: l) log)
    (hevs : evs = [] ∨ evs = [.keyDestroyed c.backend c.keyRef,
      .secretDestroyed c.backend c.credRandom]) : Held l (log ++ evs) := by
  have hl := h.sublist (List.sublist_cons_self c l)
  rcases hevs with rfl | rfl
  · exact hl.append rfl
  have hgone : gone (log ++ [.keyDestroyed c.backend c.keyRef,
      .secretDestroyed c.backend c.credRandom]) = gone log ++ c.resources := gone_append _ _
  have hmade : Swpasskey.made (log ++ [.keyDestroyed c.backend c.keyRef,
      .secretDestroyed c.backend c.credRandom]) = Swpasskey.made log :=
    (made_append _ _).trans (List.append_nil _)
  -- no two rows share a resource, so the other rows keep theirs
  have hsplit : (resources (c :: l)) = c.resources ++ resources l := rfl
  refine ⟨hl.nodup, ?_, ?_, ?_⟩
  · rw [hmade]
    exact hl.made
  · rw [hgone]
    refine List.disjoint_append_right.mpr ⟨hl.alive, ?_⟩
    have hnodup := h.nodup
    rw [hsplit] at hnodup
    exact (List.disjoint_of_nodup_append hnodup).symm
  · rw [hgone, hmade]
    refine List.append_subset.mpr ⟨h.gone_made, ?_⟩
    exact List.Subset.trans (hsplit ▸ List.subset_append_left _ _) h.made

/-- A row whose resources have just been made. -/
theorem create (h : Held l log) (hevs : gone evs = []) (hmade : Swpasskey.made evs = c.resources)
    (hr : Regular (log ++ evs)) : Held (c :: l) (log ++ evs) := by
  have hl := h.append hevs
  have hsplit : Swpasskey.made (log ++ evs) = Swpasskey.made log ++ c.resources := by
    rw [made_append, hmade]
  have hnodup := hr.nodup
  rw [hsplit] at hnodup
  -- a resource made now was not made before, nor destroyed
  have hdisj := List.disjoint_of_nodup_append hnodup
  refine ⟨?_, ?_, ?_, hl.gone_made⟩
  · refine List.nodup_append'.mpr ⟨(List.nodup_append'.mp hnodup).2.1, h.nodup, ?_⟩
    exact (List.disjoint_of_subset_left h.made hdisj).symm
  · refine List.append_subset.mpr ⟨?_, hl.made⟩
    rw [hsplit]
    exact List.subset_append_right _ _
  · refine List.disjoint_append_left.mpr ⟨?_, hl.alive⟩
    rw [gone_append, hevs, List.append_nil]
    exact (List.disjoint_of_subset_left h.gone_made hdisj).symm

end Held

/-! ### The invariant -/

/-- The stored rows have distinct ids and hold their resources. -/
def Alive (w : World) : Prop := (ids w.store.creds).Nodup ∧ Held w.store.creds w.log

/-- The stored rows and a row still to be stored. -/
def AliveWith (c : Credential) (w : World) : Prop :=
  (ids w.store.creds).Nodup ∧ Held (c :: w.store.creds) w.log

/-- The frame of `Alive` while the log is regular. -/
def aliveFrame : Frame World := whileOk Regular Alive (fun _ => True) fun _ _ => trivial

namespace Alive

variable {D : Device} {w : World}

theorem emits (h : Alive w) {evs : List Event} (hevs : gone evs = []) : Alive (w.emits evs) :=
  ⟨h.1, h.2.append hevs⟩

theorem flushed (h : Alive w) (m : Mutator) (e : Env) (ok : Bool) : Alive (w.flushed m e ok) := by
  cases ok
  · exact ⟨h.1, h.2.append rfl⟩
  · exact ⟨h.1, h.2.append rfl⟩

/-- The procedure keeps the rows alive, while the log is regular. -/
def Kept {α : Type} (m : Cmd Status α) (w : World) : Prop :=
  m.Run w (fun _ w' => Regular w'.log → Alive w') (fun _ w' => Regular w'.log → Alive w')
    fun w' => Regular w'.log → True

/-- A new row holds what `createRow` made for it. -/
theorem created (h : Alive w) {m : KeyMaterial} {credId : Block 32} {now : UInt64}
    {secret : Block 64} {wrapped : Bytes} (e : Env) (template : Credential)
    (hr : Regular (w.log ++ creation D m credId secret wrapped)) :
    AliveWith (template.keyed (m.key D.primaryKind) credId now wrapped)
      ((w.withEnv e).emits (creation D m credId secret wrapped)) :=
  ⟨h.1, h.2.create rfl (made_creation D template m credId now secret wrapped) hr⟩

/-- The destruction of the row still to be stored. -/
theorem destroyKey {c : Credential} {P : Status → World → Prop} (h : AliveWith c w) :
    (destroyKey D c).Run w (fun _ => Alive) P fun _ => True :=
  run_destroyKey (fun _ => ⟨h.1, h.2.sublist (List.sublist_cons_self _ _)⟩)
    (fun _ _ => ⟨h.1, h.2.release (.inr rfl)⟩) (fun _ => trivial) fun _ => trivial

/-- The row is stored, or given up. -/
theorem storeRow {c : Credential} (h : AliveWith c w) : Kept (storeRow D c) w := by
  have hfailed : ∀ e, AliveWith c (w.flushed .put e false) := fun e => ⟨h.1, h.2.append rfl⟩
  refine run_storeRow (fun e _ _ => ?_) (fun _ => ?_) (fun _ e => ?_) fun _ _ => trivial
  · obtain ⟨l', hsub, hperm, -⟩ := putRows_perm h.1 c
    refine Alive.flushed (w := w.withCreds _) ⟨ids_putRows h.1 c, ?_⟩ .put e true
    exact (h.2.sublist (hsub.cons_cons c)).perm hperm.symm
  · exact (destroyKey h).mono (fun _ _ h' _ => h') (fun _ _ h' => h') fun _ _ _ => trivial
  · exact (destroyKey (hfailed e)).mono (fun _ _ h' _ => h') (fun _ _ h' => h') fun _ _ _ => trivial

/-- A stored row is destroyed and erased, while another waits to be stored. -/
theorem replaceRow {c old : Credential} {P : Status → World → Prop} (h : AliveWith c w)
    (hold : old ∈ w.store.creds) :
    (replaceRow D old).Run w (fun _ w' => Regular w'.log → AliveWith c w' ∧
      ∀ e ∈ w.store.creds, e ≠ old → e ∈ w'.store.creds) P fun _ => True := by
  have hfound := findById_of_mem h.1 hold
  have hperm := eraseRows_perm hfound
  refine run_replaceRow hfound (fun e l hl e' => ⟨fun _ => ⟨⟨?_, ?_⟩, ?_⟩, fun hr => ?_, trivial⟩)
    fun _ => ⟨trivial, trivial⟩
  · exact (eraseRows_sublist.map _).nodup h.1
  · have hwith : Held (old :: c :: eraseRows old.credId.bytes w.store.creds) w.log :=
      h.2.perm ((hperm.cons c).trans (List.Perm.swap _ _ _))
    exact (hwith.release hl).append rfl
  · intro e he hne
    exact List.mem_of_ne_of_mem hne (hperm.subset he)
  · exact absurd (List.mem_append_right _ List.mem_cons_self) hr.erased

theorem createCredential (h : Alive w) (q : MakeCredentialRequest) (uv : Bool) :
    Kept (createCredential D q uv) w := by
  refine run_bind.mpr (run_createRow (fun m credId now secret wrapped e _ _ => ?_)
    (fun _ _ _ _ => h)
    (fun _ _ => trivial) fun m l _ hl r e => ⟨fun _ => ?_, fun _ => trivial⟩)
  · set c := (q.template D).keyed (m.key D.primaryKind) credId now wrapped
    refine run_bind.mpr (run_gets.mpr (run_bind.mpr ?_))
    -- the rows to replace are stored rows, each once
    refine (Run.forEach (I := fun rest w' => Regular w'.log → AliveWith c w' ∧ rest.Nodup ∧
        ∀ old ∈ rest, old ∈ w'.store.creds) (fun old rest w' hw' => ?_) _ _ fun hr => ?_).weaken ?_
    · refine (run_whileOk (fun _ _ => Regular.mono) ((logGrows_credNeutral D).replaceRow old)
        fun hr => ?_)
      obtain ⟨hw, hnodup, hmem⟩ := hw' hr
      refine (replaceRow hw (hmem old List.mem_cons_self)).mono (fun _ w'' hw'' hr'' => ?_)
        (fun _ _ h' => h') fun _ _ _ => trivial
      obtain ⟨hnew, hrest⟩ := hw'' hr''
      refine ⟨hnew, (List.nodup_cons.mp hnodup).2, fun e he => ?_⟩
      exact hrest e (hmem e (List.mem_cons_of_mem _ he)) fun heq =>
        (List.nodup_cons.mp hnodup).1 (heq ▸ he)
    · refine ⟨h.created e _ hr, ?_, ?_⟩
      · exact (((List.filter_sublist.trans List.filter_sublist).map _).nodup h.1).of_map _
      · exact fun old hold => List.mem_of_mem_filter (List.mem_of_mem_filter hold)
    · intro _ w' hw'
      refine run_bind.mpr ((run_whileOk (fun _ _ => Regular.mono)
        ((logGrows_credNeutral D).storeRow c)
        fun hr => storeRow (hw' hr).1).mono (fun _ w'' hw'' => ?_) (fun _ _ h' => h')
          fun _ h' => h')
      exact run_bind.mpr ((quiet_signDer _ _).run_of (fun _ _ => hw'') (fun _ _ => hw'')
        fun _ _ => trivial)
  · exact h.emits (w := w.withEnv e) (gone_of_partialCreation hl)

theorem registerWith (h : Alive w) (challenge application : Block 32) (key : SigningKey)
    (cert : Bytes) : Kept (registerWith D challenge application key cert) w := by
  refine run_bind.mpr (run_createRow (fun m credId now secret wrapped e _ _ => ?_)
    (fun _ _ _ _ => h)
    (fun _ _ => trivial) fun m l _ hl r e => ⟨fun _ => ?_, fun _ => trivial⟩)
  · refine run_bind.mpr ((quiet_signDer _ _).run_of (fun sig e' => ?_) (fun _ e' _ => ?_)
      fun _ _ => trivial)
    · refine run_bind.mpr ((run_whileOk (fun _ _ => Regular.mono)
        ((logGrows_credNeutral D).storeRow _) fun hr => storeRow ?_).weaken fun _ _ h' => h')
      exact h.created e' (u2fTemplate application) hr
    · exact h.emits (w := w.withEnv e') rfl
  · exact h.emits (w := w.withEnv e) (gone_of_partialCreation hl)

theorem updateCountAndUsed (h : Alive w) (credId : Bytes) (n : UInt32) (t : UInt64) :
    Kept (Store.updateCountAndUsed credId n t) w := by
  have hused : ∀ c, w.store.findById credId = some c →
      Alive (w.withCreds (replaceFirst (c.used n t) w.store.creds)) := by
    intro c hc
    have hids : ids (replaceFirst (c.used n t) w.store.creds) = ids w.store.creds :=
      map_replaceFirst_used _ hc rfl
    have hres : resources (replaceFirst (c.used n t) w.store.creds) = resources w.store.creds :=
      congrArg List.flatten (map_replaceFirst_used _ hc rfl)
    exact ⟨hids ▸ h.1, h.2.of_perm (hres ▸ List.Perm.refl _)⟩
  exact Store.run_updateCountAndUsed (fun _ => h) (fun c e hc _ => (hused c hc).flushed _ e _)
    (fun c e hc _ => (hused c hc).flushed _ e _) fun _ _ _ _ => trivial

/-- A stored row is destroyed, and then erased. -/
theorem ctlDelete (h : Alive w) (credId : Bytes) : Kept (ctlDelete D credId) w := by
  refine run_bind.mpr (run_gets.mpr ?_)
  rcases hfound : w.store.findById credId with _ | row
  · exact fun _ => h
  have hperm := eraseRows_perm hfound
  -- the key is gone already; in a regular run the row goes too
  have herase : ∀ e evs, evs = [] ∨ evs = [Event.keyDestroyed row.backend row.keyRef,
      .secretDestroyed row.backend row.credRandom] →
      Kept (dropNext >>= fun _ => Store.erase credId) ((w.withEnv e).emits evs) := by
    intro e evs hevs
    refine run_bind.mpr (run_modify.mpr (Store.run_erase (fun hnone => ?_) (fun c e' _ _ => ?_)
      (fun c e' _ hr => ?_) fun _ _ _ _ => trivial))
    · exact absurd (hfound.symm.trans hnone) (by simp)
    · refine ⟨(eraseRows_sublist.map _).nodup h.1, ?_⟩
      exact ((h.2.perm hperm).release hevs).append rfl
    · exact absurd (List.mem_append_right _ List.mem_cons_self) hr.erased
  refine run_bind.mpr (run_destroyKey (fun _ => ?_) (fun e _ => herase e _ (.inr rfl))
    (fun _ _ => trivial) fun _ _ => trivial)
  have hnil := herase w.env [] (.inl rfl)
  rwa [World.emits_nil] at hnil

/-- Every row is destroyed, and memory emptied. -/
theorem factoryReset (h : Alive w) : Kept (Store.factoryReset (Swpasskey.destroyKey D)) w := by
  refine run_bind.mpr (run_gets.mpr (run_bind.mpr ?_))
  refine (Run.forEach (I := fun rest w' => Held rest w'.log) (fun c rest w' hw' => ?_) _ _
    h.2).weaken fun _ w' hw' => ?_
  · exact run_destroyKey (fun _ => hw'.sublist (List.sublist_cons_self _ _))
      (fun _ _ => hw'.release (.inr rfl)) (fun _ _ => trivial) fun _ _ => trivial
  · have hwiped : ∀ e ok gone, Alive (w'.wiped.persisterReset e ok gone) := fun e ok gone =>
      ⟨List.nodup_nil, (hw'.append rfl).append rfl⟩
    exact Store.run_wipe (fun e e' gone _ => (hwiped e true gone).flushed _ e' _)
      (fun e e' gone _ => (hwiped e true gone).flushed _ e' _) (fun e gone _ => hwiped e false gone)
      (fun _ _ => trivial) fun _ _ _ _ => trivial

theorem rowOps (D : Device) : RowOps D aliveFrame where
  env w e h := h
  store w s hs h hr := by
    obtain ⟨hids, hheld⟩ := h hr
    exact ⟨by rw [hs]; exact hids, by rw [hs]; exact hheld⟩
  manager w p h := h
  dropNext w h := h
  flushed w m e ok _ := whileOk_rel (fun _ _ => Regular.mono) (w.log_prefix_flushed m e ok)
    fun _ h => h.flushed m e ok
  event w ev hev := whileOk_rel (fun _ _ => Regular.mono) (List.prefix_append _ _) fun _ h =>
    h.emits (by cases ev <;> first | exact hev.elim | rfl)
  createCredential q uv := guarantees_whileOk (fun _ _ => Regular.mono)
    ((logGrows_pieces D).createCredential q uv) fun _ _ h => h.createCredential q uv
  registerWith _ _ _ _ := guarantees_whileOk (fun _ _ => Regular.mono)
    ((logGrows_pieces D).registerWith _ _ _ _) fun _ _ h => h.registerWith _ _ _ _
  ctlDelete _ := guarantees_whileOk (fun _ _ => Regular.mono) ((logGrows_pieces D).ctlDelete _)
    fun _ _ h => h.ctlDelete _
  factoryReset := guarantees_whileOk (fun _ _ => Regular.mono) (logGrows_factoryReset D)
    fun _ _ h => h.factoryReset

theorem used (D : Device) (credId : Bytes) (n : UInt32) (t : UInt64) :
    Guarantees aliveFrame (Store.updateCountAndUsed credId n t) :=
  guarantees_whileOk (fun _ _ => Regular.mono) ((logGrows_pieces D).updateCountAndUsed _ _ _)
    fun _ _ h => h.updateCountAndUsed _ _ _

end Alive

/-- **No dangling credential.** In every run of a fresh installation without restarts, in
which no save of an erasure fails and the backends never make the same thing twice, whatever
else fails, no stored row refers to a key or a wrapped secret that its backend was told to
destroy. -/
theorem rows_alive (D : Device) (env : Env) (steps : List Step)
    (h : Regular ((World.fresh env).run D steps).log) :
    ∀ c ∈ ((World.fresh env).run D steps).store.creds,
      .keyDestroyed c.backend c.keyRef ∉ ((World.fresh env).run D steps).log ∧
        .secretDestroyed c.backend c.credRandom ∉ ((World.fresh env).run D steps).log := by
  have hfresh : Alive (World.fresh env) :=
    ⟨List.nodup_nil, List.nodup_nil, List.nil_subset _, List.disjoint_nil_left _, List.nil_subset _⟩
  have hpieces := (Alive.rowOps D).pieces (Alive.used D) fun _ _ h => h
  have halive := World.run_whileOk (fun _ _ => Regular.mono) hpieces
    (fun _ _ hw => hw) (fun w ev hev hw => hw.emits (by cases ev <;> first | exact hev.elim | rfl))
    (fun w hr _ => absurd (List.mem_append_right _ List.mem_cons_self) hr.alive) hfresh steps h
  intro c hc
  -- the key and the secret of a row are resources of the rows
  have hmem : ∀ r ∈ c.resources, r ∈ resources ((World.fresh env).run D steps).store.creds :=
    fun r hr => List.mem_flatMap.mpr ⟨c, hc, hr⟩
  constructor
  · intro hgone
    refine halive.2.alive (hmem (.key c.backend c.keyRef) List.mem_cons_self) ?_
    exact List.mem_filterMap.mpr ⟨_, hgone, rfl⟩
  · intro hgone
    refine halive.2.alive (hmem (.secret c.backend c.credRandom)
      (List.mem_cons_of_mem _ List.mem_cons_self)) ?_
    exact List.mem_filterMap.mpr ⟨_, hgone, rfl⟩

/-- A credential is made and replaced. -/
theorem rows_alive_replaced :
    let w := (World.fresh (.calm 0)).run .plain
      [.call (.makeCredential [0x61] [1]) (.calm 1), .call (.makeCredential [0x61] [1]) (.calm 2)]
    Regular w.log ∧ ∀ c ∈ w.store.creds, .keyDestroyed c.backend c.keyRef ∉ w.log ∧
      .secretDestroyed c.backend c.credRandom ∉ w.log := by
  have h : Regular ((World.fresh (.calm 0)).run .plain
      [.call (.makeCredential [0x61] [1]) (.calm 1),
        .call (.makeCredential [0x61] [1]) (.calm 2)]).log :=
    ⟨by decide +kernel, by decide +kernel, by decide +kernel⟩
  exact ⟨h, rows_alive _ _ _ h⟩

/-- A credential is deleted and the erasure cannot be saved: the row is back, its key is
gone. Nothing else is out of the ordinary. -/
theorem not_rows_alive :
    let w := (World.fresh (.calm 0)).run .plain
      [.call (.makeCredential [0x61] [1]) (.calm 1),
        .call (.ctlDelete (List.replicate 32 1)) { Env.calm 2 with save := Stream'.const false }]
    .restarted ∉ w.log ∧ (made w.log).Nodup ∧
      ¬ ∀ c ∈ w.store.creds, .keyDestroyed c.backend c.keyRef ∉ w.log ∧
        .secretDestroyed c.backend c.credRandom ∉ w.log := by
  intro w
  refine ⟨?_, ?_, ?_⟩
  · decide +kernel
  · decide +kernel
  · decide +kernel

end Swpasskey
