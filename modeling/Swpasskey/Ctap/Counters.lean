import Swpasskey.Ctap.Pending
import Swpasskey.Store.Rows

/-!
# Signature counters

A success that claims user presence carries a counter, and a relying party takes a counter
that does not grow as the sign of a cloned authenticator. Every such success saves its
counter first, so neither a failed save nor a restart brings an old one back. But
getNextAssertion counts from the **copy** of the row in the pending list, and a U2F
authentication does not drop that list. So the counters of a credential are strictly
increasing (`counters_increasing`) in every run in which no U2F authentication uses a row
while it waits in the list.
-/

namespace Swpasskey

open Proc Store

/-! ### What is claimed -/

/-- The key handle of a U2F authentication that enforces user presence. -/
def Call.enforcedHandle : Call → Option Bytes
  | .u2f apdu => (parseApdu apdu).bind fun req =>
    if req.cla = 0 ∧ req.ins = 0x02 ∧ req.p1 = kAuthEnforce then some (req.data.drop 65) else none
  | _ => none

/-- The credential and the counter of a success that claims user presence. -/
def upCounter (c : Call) : Answer → Option (Bytes × UInt32)
  | .cbor (.attestation authData _) =>
    if authData.up then authData.attested.map fun a => (a.2.1.bytes, authData.signCount) else none
  | .cbor (.assertion credId authData _ _ _) =>
    if authData.up then some (credId.bytes, authData.signCount) else none
  | .u2f (.signed presence count _) =>
    if presence = 0x01 then c.enforcedHandle.map fun handle => (handle, count) else none
  | _ => none

theorem upCounter_attestation {c : Call} {authData : AuthData} {sig : Bytes} {p : Bytes × UInt32}
    {a : Block 16 × Block 32 × P256PublicKey}
    (h : upCounter c (.cbor (.attestation authData sig)) = some p)
      (ha : authData.attested = some a) :
    p = (a.2.1.bytes, authData.signCount) := by
  rw [upCounter, ha] at h
  split at h
  · exact (Option.some.inj h).symm
  · cases h

theorem upCounter_assertion {c : Call} {cred : Credential} {rpIdHash : Block 32} {flags : UInt8}
    {bump : Bool} {r : Reply} {p : Bytes × UInt32} (hr : IsAssertion cred rpIdHash flags bump r)
    (h : upCounter c (.cbor r) = some p) :
    flags &&& kFlagUp ≠ 0 ∧ p = (cred.credId.bytes, assertionCount cred bump) := by
  have hup : ∀ {credId authData sig user number},
      upCounter c (.cbor (.assertion credId authData sig user number)) = some p →
        authData.up ∧ p = (credId.bytes, authData.signCount) := by
    intro credId authData sig user number h
    rw [upCounter] at h
    split at h
    · exact ⟨‹_›, (Option.some.inj h).symm⟩
    · cases h
  obtain ⟨extensions, sig, number, rfl, -⟩ := hr
  obtain ⟨hflags, rfl⟩ := hup h
  rw [AuthData.up, or_kFlagEd_and _ _ (by decide)] at hflags
  exact ⟨hflags, rfl⟩

/-- The credential and the counter an event makes known. -/
def Event.counter : Event → Option (Bytes × UInt32)
  | answered c a => upCounter c a
  | _ => none

/-- The credentials and counters made known, in order. -/
def claimed (log : List Event) : List (Bytes × UInt32) := log.filterMap Event.counter

/-- The credential id an event draws. -/
def Event.drawn : Event → Option (Block 32)
  | credIdDrawn credId => some credId
  | _ => none

/-- The credential ids drawn, in order. -/
def drawn (log : List Event) : List (Block 32) := log.filterMap Event.drawn

/-- The counters of each credential grow. -/
def Increasing (l : List (Bytes × UInt32)) : Prop := l.Pairwise fun p q => p.1 = q.1 → p.2 < q.2

theorem claimed_append (l l' : List Event) : claimed (l ++ l') = claimed l ++ claimed l' :=
  List.filterMap_append

theorem drawn_append (l l' : List Event) : drawn (l ++ l') = drawn l ++ drawn l' :=
  List.filterMap_append

theorem claimed_of_inner {evs : List Event} (h : ∀ ev ∈ evs, ev.Inner) : claimed evs = [] := by
  refine List.filterMap_eq_nil_iff.mpr fun ev hev => ?_
  have hinner := h ev hev
  cases ev <;> first | rfl | exact hinner.elim

theorem claimed_answered (c : Call) (a : Answer) :
    claimed [.answered c a] = (upCounter c a).toList := by
  rw [claimed, List.filterMap_cons, Event.counter]
  rcases upCounter c a with _ | p
  · rfl
  · rfl

theorem nodup_drawn_mono {l l' : List Event} (h : l <+: l') (hd : (drawn l').Nodup) :
    (drawn l).Nodup :=
  (h.sublist.filterMap _).nodup hd

theorem lt_succ_of_le {m n : UInt32} (h : m ≤ n) (hn : n ≠ 0xFFFFFFFF) : m < n + 1 := by
  have hne : n.toNat ≠ 4294967295 := fun heq => hn (UInt32.toNat_inj.mp heq)
  have hlt := n.toNat_lt
  rw [UInt32.le_iff_toNat_le] at h
  rw [UInt32.lt_iff_toNat_lt, UInt32.toNat_add]
  change m.toNat < (n.toNat + 1) % 2 ^ 32
  rw [Nat.mod_eq_of_lt (by omega)]
  omega

/-! ### Rows that are not behind -/

/-- The row is not behind what has been made known of its counter. -/
structure Current (log : List Event) (c : Credential) : Prop where
  drawn : c.credId ∈ drawn log
  le : ∀ n, (c.credId.bytes, n) ∈ claimed log → n ≤ c.signCount

/-- Rows with distinct ids that are not behind. -/
structure AllCurrent (log : List Event) (l : List Credential) : Prop where
  ids : (ids l).Nodup
  current : ∀ c ∈ l, Current log c

section Rows

variable {log evs : List Event} {l l' : List Credential} {c : Credential}

theorem Current.append (h : Current log c) (hevs : claimed evs = []) : Current (log ++ evs) c where
  drawn := by
    rw [drawn_append]
    exact List.mem_append_left _ h.drawn
  le n hn := by
    rw [claimed_append, hevs, List.append_nil] at hn
    exact h.le n hn

theorem Current.grow {w w' : World} (h : Current w.log c) (hw : logGrows.rel w w') :
    Current w'.log c := by
  obtain ⟨evs, hlog, hinner⟩ := hw
  rw [hlog]
  exact h.append (claimed_of_inner hinner)

/-- After a counter is made known, the rows that have it, and those of other credentials,
are not behind. -/
theorem Current.answered {call : Call} {a : Answer} (h : Current log c)
    (ha : ∀ p, upCounter call a = some p → c.credId.bytes = p.1 → p.2 ≤ c.signCount) :
    Current (log ++ [.answered call a]) c where
  drawn := by
    rw [drawn_append]
    exact List.mem_append_left _ h.drawn
  le n hn := by
    rw [claimed_append, claimed_answered] at hn
    rcases List.mem_append.mp hn with hn | hn
    · exact h.le n hn
    · exact ha _ (Option.mem_toList.mp hn) rfl

namespace AllCurrent

theorem nil : AllCurrent log [] := ⟨List.nodup_nil, fun _ hc => by cases hc⟩

theorem sublist (h : AllCurrent log l) (hl : l'.Sublist l) : AllCurrent log l' :=
  ⟨(hl.map _).nodup h.ids, fun c hc => h.current c (hl.subset hc)⟩

theorem perm (h : AllCurrent log l) (hl : l.Perm l') : AllCurrent log l' :=
  ⟨(hl.map _).nodup_iff.mp h.ids, fun c hc => h.current c (hl.symm.subset hc)⟩

theorem append (h : AllCurrent log l) (hevs : claimed evs = []) : AllCurrent (log ++ evs) l :=
  ⟨h.ids, fun c hc => (h.current c hc).append hevs⟩

theorem put (h : AllCurrent log l) (hc : Current log c) : AllCurrent log (putRows c l) := by
  obtain ⟨l', hsub, hperm, -⟩ := putRows_perm h.ids c
  refine ⟨ids_putRows h.ids c, fun e he => ?_⟩
  rcases List.mem_cons.mp (hperm.subset he) with rfl | he
  · exact hc
  · exact h.current e (hsub.subset he)

/-- A row is used, with a counter that is not behind. -/
theorem used (h : AllCurrent log l) {credId : Bytes} {n : UInt32} {t : UInt64}
    (hfound : l.find? (fun c => c.credId.bytes == credId) = some c)
    (hn : ∀ m, (credId, m) ∈ claimed log → m ≤ n) :
    AllCurrent log (replaceFirst (c.used n t) l) := by
  have hid : c.credId.bytes = credId := by simpa using List.find?_some hfound
  have hids : Store.ids (replaceFirst (c.used n t) l) = Store.ids l :=
    map_replaceFirst_used _ hfound rfl
  refine ⟨hids ▸ h.ids, fun e he => ?_⟩
  obtain ⟨l₁, l₂, rfl, hsplit⟩ := replaceFirst_used_split hfound n t
  rw [hsplit] at he
  -- only the row that was used has a new counter
  rcases List.mem_append.mp he with he | he
  · exact h.current e (List.mem_append_left _ he)
  rcases List.mem_cons.mp he with rfl | he
  · refine ⟨(h.current c (List.mem_append_right _ List.mem_cons_self)).drawn, fun m hm => ?_⟩
    exact hn m (hid ▸ hm)
  · exact h.current e (List.mem_append_right _ (List.mem_cons_of_mem _ he))

end AllCurrent

/-- Of rows with distinct ids, the only one with the id of a member is that member. -/
theorem eq_of_credId_eq {e : Credential} (hids : (ids l).Nodup) (hc : c ∈ l) (he : e ∈ l)
    (h : e.credId.bytes = c.credId.bytes) : e = c :=
  List.inj_on_of_nodup_map hids he hc (Block.ext h)

end Rows

/-! ### The invariant -/

/-- What is made known is about credentials of this authenticator, and what is saved is not
behind. -/
def FileCurrent (w : World) : Prop :=
  (∀ p ∈ claimed w.log, ∃ id ∈ drawn w.log, id.bytes = p.1) ∧
    ∀ s, w.file = some s → AllCurrent w.log s.creds

/-- The rows that wait in the list are not behind, if their counters are to be used. -/
def ListCurrent (w : World) : Prop := ∀ st, w.next = some st →
  (st.flags &&& kFlagUp ≠ 0 → st.bumpCounter = true) ∧
    (st.bumpCounter = true → AllCurrent w.log st.remaining ∧
      ∀ c ∈ st.remaining, c.signCount ≠ 0xFFFFFFFF)

/-- Nothing from which a counter may be taken is behind. -/
def Counting (w : World) : Prop :=
  (AllCurrent w.log w.store.creds ∧ ListCurrent w) ∧ FileCurrent w

/-- The counter is new, everything stored has it, and its credential does not wait in the
list. -/
structure Sealed (p : Bytes × UInt32) (w : World) : Prop where
  known : ∃ id ∈ drawn w.log, id.bytes = p.1
  new : ∀ n, (p.1, n) ∈ claimed w.log → n < p.2
  stored : ∀ c ∈ w.store.creds, c.credId.bytes = p.1 → p.2 ≤ c.signCount
  saved : ∀ s, w.file = some s → ∀ c ∈ s.creds, c.credId.bytes = p.1 → p.2 ≤ c.signCount
  spared : ∀ st, w.next = some st → st.bumpCounter = true →
    ∀ c ∈ st.remaining, c.credId.bytes ≠ p.1

theorem Sealed.withEnv {p : Bytes × UInt32} {w : World} (h : Sealed p w) (e : Env) :
    Sealed p (w.withEnv e) :=
  ⟨h.known, h.new, h.stored, h.saved, h.spared⟩

theorem Sealed.dropNext {p : Bytes × UInt32} {w : World} (h : Sealed p w) :
    Sealed p { w with next := none } :=
  ⟨h.known, h.new, h.stored, h.saved, fun st hst => by cases hst⟩

/-- The frame of `Counting` while no credential id is drawn twice. -/
def countingFrame : Frame World :=
  whileOk (fun log => (drawn log).Nodup) Counting FileCurrent fun _ h => h.2

namespace Counting

variable {D : Device} {w : World}

theorem emits (h : Counting w) {l : List Event} (hevs : claimed l = []) :
    Counting (w.emits l) := by
  obtain ⟨⟨hrows, hlist⟩, hsource, hfile⟩ := h
  refine ⟨⟨hrows.append hevs, fun st hst => ?_⟩, fun p hp => ?_, fun s hs =>
    (hfile s hs).append hevs⟩
  · obtain ⟨hup, hbump⟩ := hlist st hst
    exact ⟨hup, fun hb => ⟨(hbump hb).1.append hevs, (hbump hb).2⟩⟩
  · have hp' : p ∈ claimed w.log := by
      rw [World.emits, claimed_append, hevs, List.append_nil] at hp
      exact hp
    obtain ⟨id, hid, heq⟩ := hsource p hp'
    refine ⟨id, ?_, heq⟩
    rw [World.emits, drawn_append]
    exact List.mem_append_left _ hid

theorem flushed (h : Counting w) (m : Mutator) (e : Env) (ok : Bool) :
    Counting (w.flushed m e ok) := by
  cases ok with
  | false => exact h.emits (w := w.withEnv e) rfl
  | true =>
    obtain ⟨hmem, hsource, -⟩ := h.emits (l := [.flushed m true]) rfl
    exact ⟨hmem, hsource, fun s hs => Option.some.inj hs ▸ hmem.1⟩

theorem withCreds (h : Counting w) {l : List Credential} (hl : AllCurrent w.log l) :
    Counting (w.withCreds l) := ⟨⟨hl, h.1.2⟩, h.2⟩

theorem erase (h : Counting w) (credId : Bytes) :
    (Store.erase credId).Run w (fun _ => Counting) (fun _ => Counting) FileCurrent := by
  refine Store.run_erase (fun _ => h) (fun c e _ => ?_) (fun c e hc => ?_) fun _ _ _ => h.2
  · exact (h.withCreds (h.1.1.sublist eraseRows_sublist)).flushed _ e _
  · exact (h.withCreds (h.1.1.perm ((eraseRows_perm hc).trans
      (List.perm_append_singleton _ _).symm))).flushed _ e _

theorem dropNext (h : Counting w) : Counting { w with next := none } :=
  ⟨⟨h.1.1, fun st hst => by cases hst⟩, h.2⟩

theorem destroyKey (h : Counting w) (c : Credential) :
    (destroyKey D c).Run w (fun _ => Counting) (fun _ => Counting) FileCurrent :=
  run_destroyKey (fun _ => h) (fun e _ => h.emits (w := w.withEnv e) rfl) (fun _ => h.2)
    fun e => (h.emits (w := w.withEnv e) (l := [.keyDestroyed c.backend c.keyRef]) rfl).2

theorem replaceRow (h : Counting w) (old : Credential) :
    (replaceRow D old).Run w (fun _ => Counting) (fun _ => Counting) FileCurrent :=
  run_bind.mpr ((h.destroyKey old).weaken fun _ _ h' => run_bind.mpr (run_attempt.mpr
    ((h'.erase _).mono (fun _ _ h'' => h'') (fun _ _ h'' => h'') fun _ h'' => h'')))

theorem wipe (h : Counting w) :
    Store.wipe.Run w (fun _ => Counting) (fun _ => Counting) FileCurrent := by
  have hwiped : Counting w.wiped := (h.withCreds .nil).emits (l := [.pinWiped]) rfl
  have hreset : ∀ e ok gone, Counting (w.wiped.persisterReset e ok gone) := by
    intro e ok gone
    obtain ⟨hmem, hsource, hfile⟩ := hwiped.emits (w := w.wiped.withEnv e)
      (l := [.persisterReset ok gone]) rfl
    refine ⟨hmem, hsource, fun s hs => ?_⟩
    cases gone
    · exact hfile s hs
    · cases hs
  exact Store.run_wipe (fun e e' gone => (hreset e true gone).flushed _ e' _)
    (fun e e' gone => (hreset e true gone).flushed _ e' _) (fun e gone => hreset e false gone)
    (fun _ => hwiped.2) fun e _ gone => (hreset e true gone).2

end Counting

/-! ### Counters are saved before they are made known -/

section Saved

variable {D : Device} {w w' : World} {c : Credential}

/-- What a successful save of a new counter leaves behind. -/
theorem Sealed.of_flushed {p : Bytes × UInt32} {m : Mutator} {e : Env}
    (hdrawn : ∃ id ∈ drawn w.log, id.bytes = p.1) (hnew : ∀ n, (p.1, n) ∈ claimed w.log → n < p.2)
    (hstored : ∀ c ∈ w.store.creds, c.credId.bytes = p.1 → p.2 ≤ c.signCount)
    (hspared : ∀ st, w.next = some st → st.bumpCounter = true →
      ∀ c ∈ st.remaining, c.credId.bytes ≠ p.1) : Sealed p (w.flushed m e true) where
  known := by
    obtain ⟨id, hid, heq⟩ := hdrawn
    refine ⟨id, ?_, heq⟩
    change id ∈ drawn (w.log ++ [.flushed m true])
    rw [drawn_append]
    exact List.mem_append_left _ hid
  new n hn := by
    change (p.1, n) ∈ claimed (w.log ++ [.flushed m true]) at hn
    rw [claimed_append] at hn
    exact hnew n (by simpa [claimed, Event.counter] using hn)
  stored := hstored
  saved s hs := Option.some.inj hs ▸ hstored
  spared := hspared

/-- A row of which nothing has been made known. -/
structure Unclaimed (c : Credential) (w : World) : Prop where
  drawn : c.credId ∈ drawn w.log
  new : ∀ n, (c.credId.bytes, n) ∉ claimed w.log
  spared : ∀ st, w.next = some st → st.bumpCounter = true →
    ∀ e ∈ st.remaining, e.credId.bytes ≠ c.credId.bytes

theorem Unclaimed.current (h : Unclaimed c w) : Current w.log c :=
  ⟨h.drawn, fun n hn => absurd hn (h.new n)⟩

theorem Unclaimed.keep (h : Unclaimed c w) (hlog : logGrows.rel w w') (hnext : listKept.rel w w') :
    Unclaimed c w' where
  drawn := (h.current.grow hlog).drawn
  new n hn := by
    obtain ⟨evs, hevs, hinner⟩ := hlog
    rw [hevs, claimed_append, claimed_of_inner hinner, List.append_nil] at hn
    exact h.new n hn
  spared st hst := by
    rcases hnext with hnext | hnext
    · exact h.spared st (hnext ▸ hst)
    · rw [hnext] at hst
      cases hst

/-- A new row has an id that has not been seen before. -/
theorem Counting.created (h : Counting w) {m : KeyMaterial} {credId : Block 32} {now : UInt64}
    {secret : Block 64} {wrapped : Bytes} (e : Env) (template : Credential)
    (hd : (drawn (w.log ++ creation D m credId secret wrapped)).Nodup) :
    Unclaimed (template.keyed (m.key D.primaryKind) credId now wrapped)
      ((w.withEnv e).emits (creation D m credId secret wrapped)) := by
  have hsplit : drawn (w.log ++ creation D m credId secret wrapped) = drawn w.log ++ [credId] :=
    drawn_append _ _
  have hclaimed : claimed (w.log ++ creation D m credId secret wrapped) = claimed w.log := by
    rw [claimed_append]
    exact List.append_nil _
  rw [hsplit] at hd
  -- the id is drawn for the first time, so no counter was ever claimed for it
  have hnot : credId ∉ drawn w.log := fun hmem =>
    List.disjoint_of_nodup_append hd hmem List.mem_cons_self
  refine ⟨?_, fun n hn => hnot ?_, fun st hst hb c hc heq => hnot ?_⟩
  · change credId ∈ drawn (w.log ++ creation D m credId secret wrapped)
    rw [hsplit]
    exact List.mem_append_right _ List.mem_cons_self
  · change (credId.bytes, n) ∈ claimed (w.log ++ creation D m credId secret wrapped) at hn
    rw [hclaimed] at hn
    obtain ⟨id, hid, heq⟩ := h.2.1 _ hn
    exact Block.ext heq ▸ hid
  · have hid : c.credId = credId := Block.ext heq
    exact hid ▸ (((h.1.2 st hst).2 hb).1.current c hc).drawn

/-- A new row is stored, with its counter, or given up. -/
theorem Counting.storeRow (h : Counting w) (hc : Unclaimed c w) :
    (storeRow D c).Run w (fun _ w' => Counting w' ∧ Sealed (c.credId.bytes, c.signCount) w')
      (fun _ => Counting) FileCurrent := by
  have hput : AllCurrent w.log (putRows c w.store.creds) := h.1.1.put hc.current
  refine run_storeRow (fun e _ => ⟨(h.withCreds hput).flushed _ e _, ?_⟩) (fun _ => h.destroyKey c)
    (fun _ e => (h.flushed .put e false).destroyKey c) fun _ => h.2
  refine Sealed.of_flushed ⟨c.credId, hc.drawn, rfl⟩ (fun n hn => absurd hn (hc.new n))
    (fun e he heq => ?_) hc.spared
  rw [eq_of_credId_eq hput.ids (mem_putRows_self c _) he heq]
  exact UInt32.le_refl _

/-- A row is used, with the next counter after that of a copy which is not behind. -/
theorem Counting.used (h : Counting w) (hc : Current w.log c) (hmax : c.signCount ≠ 0xFFFFFFFF)
    (hspared : ∀ st, w.next = some st → st.bumpCounter = true →
      ∀ e ∈ st.remaining, e.credId.bytes ≠ c.credId.bytes) (t : UInt64) :
    (Store.updateCountAndUsed c.credId.bytes (c.signCount + 1) t).Run w
      (fun _ w' => Counting w' ∧ Sealed (c.credId.bytes, c.signCount + 1) w') (fun _ => Counting)
      FileCurrent := by
  have hnew : ∀ n, (c.credId.bytes, n) ∈ claimed w.log → n < c.signCount + 1 := fun n hn =>
    lt_succ_of_le (hc.le n hn) hmax
  have hused : ∀ e, w.store.findById c.credId.bytes = some e →
      AllCurrent w.log (replaceFirst (e.used (c.signCount + 1) t) w.store.creds) := fun e he =>
    h.1.1.used he fun n hn => UInt32.le_of_lt (hnew n hn)
  refine Store.run_updateCountAndUsed h (fun e env he =>
    ⟨(h.withCreds (hused e he)).flushed _ env _, ?_⟩)
    (fun e env he => (h.withCreds (hused e he)).flushed _ env _) fun _ _ _ => h.2
  refine Sealed.of_flushed ⟨c.credId, hc.drawn, rfl⟩ hnew (fun e' he' heq => ?_) hspared
  obtain ⟨l₁, l₂, -, hsplit⟩ := replaceFirst_used_split he (c.signCount + 1) t
  have hmem : e.used (c.signCount + 1) t ∈ replaceFirst
      (e.used (c.signCount + 1) t) w.store.creds := by
    rw [hsplit]
    exact List.mem_append_right _ List.mem_cons_self
  -- the ids are distinct, so the row with this id is the one just used
  rw [eq_of_credId_eq (hused e he).ids hmem he' (heq.trans (mem_of_findById he).2.symm)]
  exact UInt32.le_refl _

end Saved

/-! ### The commands -/

/-- While no credential id is drawn twice, the procedure keeps everything current, and its
result is as `Q` says. -/
def Counts {ε α : Type} (m : Cmd ε α) (w : World) (Q : α → World → Prop) : Prop :=
  m.Run w (fun a w' => (drawn w'.log).Nodup → Counting w' ∧ Q a w')
    (fun _ w' => (drawn w'.log).Nodup → Counting w') fun w' => (drawn w'.log).Nodup → FileCurrent w'

/-- The counter of the answer, if it has one, is sealed. -/
def SealedAnswer (c : Call) (a : Answer) (w : World) : Prop :=
  ∀ p, upCounter c a = some p → Sealed p w

section Commands

variable {D : Device} {w : World}

/-- A procedure that is shown to keep everything current whatever is drawn. -/
theorem Counts.of_run {ε α : Type} {m : Cmd ε α} {Q : α → World → Prop}
    (h : m.Run w (fun a w' => Counting w' ∧ Q a w') (fun _ => Counting) FileCurrent) :
    Counts m w Q :=
  h.mono (fun _ _ h' _ => h') (fun _ _ h' _ => h') fun _ h' _ => h'

theorem Counts.guarantees {ε α : Type} {m : Cmd ε α} {Q : α → World → Prop}
    (hgrow : Guarantees logGrows m) (h : ∀ w, Counting w → Counts m w Q) :
    Guarantees countingFrame m :=
  guarantees_whileOk (fun _ _ => nodup_drawn_mono) hgrow fun w _ hw =>
    Run.weaken (h w hw) fun _ _ h' hd => (h' hd).1

/-- The rows of an account are replaced, while a new row waits to be stored. -/
theorem Counting.replaceRows {c : Credential} (l : List Credential) (h : Counting w)
    (hc : Unclaimed c w) : (forEach (Swpasskey.replaceRow D) l).Run w
      (fun _ w' => Counting w' ∧ Unclaimed c w') (fun _ => Counting) FileCurrent := by
  refine Run.forEach (I := fun _ w' => Counting w' ∧ Unclaimed c w')
    (fun old _ w' hw' => ?_) l w ⟨h, hc⟩
  have hgrow := ((logGrows_credNeutral D).replaceRow (D := D) old).run w'
  have hkept := ((listKept_credNeutral D).replaceRow (D := D) old).run w'
  refine ((hw'.1.replaceRow (D := D) old).and (hgrow.and hkept)).mono ?_ (fun _ _ h'' => h''.1)
    fun _ h'' => h''.1
  rintro _ w'' ⟨h'', hlog, hnext⟩
  exact ⟨h'', hw'.2.keep hlog hnext⟩

/-- makeCredential, from the key on: the new row is stored with the counter of the answer. -/
theorem Counting.createCredential (h : Counting w) (q : MakeCredentialRequest) (uv : Bool)
    (call : Call) : Counts (createCredential D q uv) w fun r => SealedAnswer call (.cbor r) := by
  refine run_bind.mpr (run_createRow (fun m credId now secret wrapped e _ _ => ?_)
    (fun _ _ _ _ => h)
    (fun _ _ => h.2) fun m l _ hl r e => ?_)
  · set c := (q.template D).keyed (m.key D.primaryKind) credId now wrapped
    have h₁ : Counting ((w.withEnv e).emits (creation D m credId secret wrapped)) :=
      h.emits (w := w.withEnv e) rfl
    -- nothing is promised once an id has been drawn twice
    refine run_whileOk (fun _ _ => nodup_drawn_mono) ?_ fun hd => ?_
    · refine (Guarantees.gets _).bind fun _ => ?_
      refine (Guarantees.forEach (logGrows_credNeutral D).replaceRow _).bind fun _ => ?_
      refine ((logGrows_credNeutral D).storeRow _).bind fun _ => ?_
      exact ((quiet_signDer _ _).guarantees (logGrows_credNeutral D).env).bind fun _ =>
        Guarantees.pure _
    refine Counts.of_run (run_bind.mpr (run_gets.mpr (run_bind.mpr ?_)))
    have hnew : Unclaimed c ((w.withEnv e).emits (creation D m credId secret wrapped)) :=
      h.created e (q.template D) hd
    refine (h₁.replaceRows _ hnew).weaken fun _ w₂ ⟨h₂, hc⟩ => run_bind.mpr ?_
    refine (h₂.storeRow hc).weaken fun _ w₃ ⟨h₃, hsealed⟩ => run_bind.mpr ?_
    refine (quiet_signDer _ _).run_of (fun sig e => ⟨h₃, fun p hp => ?_⟩)
      (fun _ _ => h₃) fun _ => h₃.2
    exact upCounter_attestation hp rfl ▸ hsealed.withEnv e
  · have hl' : claimed l = [] := by obtain rfl | ⟨id, rfl⟩ := hl <;> rfl
    have h' := h.emits (w := w.withEnv e) hl'
    exact ⟨fun _ => h', fun _ => h'.2⟩

theorem Counting.registerWith (h : Counting w) (challenge application : Block 32) (key : SigningKey)
    (cert : Bytes) : Counts (registerWith D challenge application key cert) w fun _ _ => True := by
  refine run_bind.mpr (run_createRow (fun m credId now secret wrapped e _ _ => ?_)
    (fun _ _ _ _ => h)
    (fun _ _ => h.2) fun m l _ hl r e => ?_)
  · have h₁ : Counting ((w.withEnv e).emits (creation D m credId secret wrapped)) :=
      h.emits (w := w.withEnv e) rfl
    refine run_bind.mpr ((quiet_signDer _ _).run_of (fun sig e' => ?_) (fun _ e' _ => h₁)
      fun _ _ => h₁.2)
    refine run_bind.mpr ((run_whileOk (fun _ _ => nodup_drawn_mono)
      ((logGrows_credNeutral D).storeRow _) fun hd => Counts.of_run ?_).weaken
        fun _ _ h' hd => h' hd)
    refine ((h.emits (w := w.withEnv e') rfl).storeRow ?_).weaken fun _ _ h' => ⟨h'.1, trivial⟩
    exact h.created e' (u2fTemplate application) hd
  · have hl' : claimed l = [] := by obtain rfl | ⟨id, rfl⟩ := hl <;> rfl
    have h' := h.emits (w := w.withEnv e) hl'
    exact ⟨fun _ => h', fun _ => h'.2⟩

theorem counting_rowOps (D : Device) : RowOps D countingFrame where
  env w e h := h
  store w s hs h hd := by
    obtain ⟨⟨hrows, hlist⟩, hfile⟩ := h hd
    exact ⟨⟨by rw [hs]; exact hrows, hlist⟩, hfile⟩
  manager w p h := h
  dropNext w h hd := (h hd).dropNext
  flushed w m e ok _ := whileOk_rel (fun _ _ => nodup_drawn_mono) (w.log_prefix_flushed m e ok)
    fun _ h => h.flushed m e ok
  event w ev hev := whileOk_rel (fun _ _ => nodup_drawn_mono) (List.prefix_append _ _) fun _ h =>
    h.emits (by cases ev <;> first | exact hev.elim | rfl)
  createCredential q uv := Counts.guarantees ((logGrows_pieces D).createCredential q uv)
    fun _ h => h.createCredential q uv (.cbor [])
  registerWith _ _ _ _ := Counts.guarantees ((logGrows_pieces D).registerWith _ _ _ _)
    fun _ h => h.registerWith _ _ _ _
  ctlDelete credId := by
    refine Counts.guarantees (Q := fun _ _ => True) ((logGrows_pieces D).ctlDelete _) fun w h =>
      Counts.of_run (run_bind.mpr (run_gets.mpr ?_))
    rcases w.store.findById credId with _ | row
    · exact h
    refine run_bind.mpr ((h.destroyKey row).weaken fun _ w' h' => run_bind.mpr (run_modify.mpr ?_))
    exact (h'.dropNext.erase credId).weaken fun _ _ h'' => ⟨h'', trivial⟩
  factoryReset := by
    refine Counts.guarantees (Q := fun _ _ => True) (logGrows_factoryReset D) fun w h =>
      Counts.of_run (run_bind.mpr (run_gets.mpr (run_bind.mpr ?_)))
    refine (Run.forEach (I := fun _ => Counting) (E := fun _ => Counting) (C := FileCurrent)
      (fun c _ _ h' => h'.destroyKey c) w.store.creds w h).weaken fun _ _ h' => ?_
    exact h'.wipe.weaken fun _ _ h'' => ⟨h'', trivial⟩

/-! ### The assertions -/

/-- The counter of an assertion is saved before it is made known, if it is used. -/
theorem Counting.buildAssertion (h : Counting w) {cred : Credential} {flags : UInt8} {bump : Bool}
    (hup : flags &&& kFlagUp ≠ 0 → bump = true)
    (hcred : bump = true → Current w.log cred ∧ cred.signCount ≠ 0xFFFFFFFF ∧
      ∀ st, w.next = some st → st.bumpCounter = true →
        ∀ c ∈ st.remaining, c.credId.bytes ≠ cred.credId.bytes)
    (rpIdHash clientDataHash : Block 32) (ext : ExtensionsIn) (number : Option ℕ) (call : Call) :
    (buildAssertion D cred rpIdHash clientDataHash flags bump ext number).Run w
      (fun r w' => Counting w' ∧ SealedAnswer call (.cbor r) w')
          (fun _ => Counting) FileCurrent := by
  refine run_buildAssertion (fun _ _ => h) (fun hb r _ hr => ⟨h, fun p hp => ?_⟩)
    (fun hb now e => ?_) fun _ => h.2
  · -- without the bump no counter with UP is claimed
    rw [hup (upCounter_assertion hr hp).1] at hb
    cases hb
  · obtain ⟨hcurrent, hmax, hspared⟩ := hcred hb
    have h' : Counting (w.withEnv e) := h
    refine (h'.used hcurrent hmax hspared now).weaken fun _ w' ⟨hw', hsealed⟩ r hr => ⟨hw', ?_⟩
    intro p hp
    rw [(upCounter_assertion hr hp).2, assertionCount, if_pos hb]
    exact hsealed

/-- The first row of a list is not among the others. -/
theorem AllCurrent.head_spared {log : List Event} {c : Credential} {l : List Credential}
    (h : AllCurrent log (c :: l)) : ∀ e ∈ l, e.credId.bytes ≠ c.credId.bytes := by
  intro e he heq
  refine (List.nodup_cons.mp h.ids).1 ?_
  exact List.mem_map.mpr ⟨e, he, Block.ext heq⟩

theorem Counting.cmdGetNextAssertion (h : Counting w) (call : Call) :
    (cmdGetNextAssertion D).Run w (fun r w' => Counting w' ∧ SealedAnswer call (.cbor r) w')
      (fun _ => Counting) FileCurrent := by
  refine run_cmdGetNextAssertion (fun _ => h.dropNext)
    (fun st cred rest e hst hrem _ _ => ?_) fun _ => h.2
  obtain ⟨hup, hbump⟩ := h.1.2 st hst
  rw [hrem] at hbump
  -- the row that is used is off the list before the assertion is built
  have hshort : Counting { w.withEnv e with next := some { st with remaining := rest } } := by
    refine ⟨⟨h.1.1, fun st' hst' => ?_⟩, h.2⟩
    obtain rfl := Option.some.inj hst'
    refine ⟨hup, fun hb => ⟨(hbump hb).1.sublist (List.sublist_cons_self _ _), fun c hc => ?_⟩⟩
    exact (hbump hb).2 c (List.mem_cons_of_mem _ hc)
  refine (hshort.buildAssertion hup (fun hb => ⟨?_, ?_, fun st' hst' _ => ?_⟩) _ _ _ _ call).mono
    (fun r w' hw' => ⟨hw', hw'.1.dropNext, fun p hp => (hw'.2 p hp).dropNext⟩)
    (fun _ _ hw' => ⟨hw', hw'.dropNext⟩) fun _ hw' => hw'
  · exact (hbump hb).1.current cred List.mem_cons_self
  · exact (hbump hb).2 cred List.mem_cons_self
  · obtain rfl := Option.some.inj hst'
    exact (hbump hb).1.head_spared

/-- No counter is at its end. -/
def BelowMax (w : World) : Prop := ∀ c ∈ w.store.creds, c.signCount ≠ 0xFFFFFFFF

/-- The rows an allowList names are stored rows, each once. -/
theorem allowed_rows (s : Store) (rpIdHash : Block 32) (l : List PubKeyCredDescriptor) :
    (ids (allowed s rpIdHash l)).Nodup ∧ ∀ c ∈ allowed s rpIdHash l, c ∈ s.creds := by
  refine List.foldlRecOn (motive := fun creds => (ids creds).Nodup ∧ ∀ c ∈ creds, c ∈ s.creds) l _
    ⟨List.nodup_nil, fun _ hc => by cases hc⟩ fun creds h d _ => ?_
  split
  · split
    · exact h
    · rename_i c hfound
      split
      · exact h
      · -- a row that is not there yet
        rename_i hany
        refine ⟨?_, fun e he => ?_⟩
        · rw [ids, List.map_append]
          refine List.nodup_append'.mpr ⟨h.1, List.nodup_singleton _, fun id hid hid' => hany ?_⟩
          obtain ⟨e, he, heq⟩ := List.mem_map.mp hid
          exact List.any_eq_true.mpr ⟨e, he,
            decide_eq_true (heq.trans (List.mem_singleton.mp hid'))⟩
        · rcases List.mem_append.mp he with he | he
          · exact h.2 e he
          · exact List.mem_singleton.mp he ▸ List.mem_of_find?_eq_some hfound
  · exact h

/-- The candidates of a getAssertion are stored rows, each once. -/
theorem candidates_rows {s : Store} (hids : (ids s.creds).Nodup) (rpIdHash : Block 32)
    (allowList : Option (List PubKeyCredDescriptor)) :
    (ids (candidates s rpIdHash allowList)).Nodup ∧
      ∀ c ∈ candidates s rpIdHash allowList, c ∈ s.creds := by
  have hrp : (ids (s.findByRp rpIdHash)).Nodup ∧ ∀ c ∈ s.findByRp rpIdHash, c ∈ s.creds :=
    ⟨(List.filter_sublist.map _).nodup hids, fun c hc => List.mem_of_mem_filter hc⟩
  rcases allowList with _ | _ | ⟨d, l⟩
  · exact hrp
  · exact hrp
  · exact allowed_rows s rpIdHash (d :: l)

theorem AllCurrent.sortCandidates {log : List Event} {s : Store} (h : AllCurrent log s.creds)
    (rpIdHash : Block 32) (allowList : Option (List PubKeyCredDescriptor)) :
    AllCurrent log (sortCandidates (candidates s rpIdHash allowList)) ∧
      ∀ c ∈ sortCandidates (candidates s rpIdHash allowList), c ∈ s.creds := by
  obtain ⟨hids, hmem⟩ := candidates_rows h.ids rpIdHash allowList
  have hperm := List.perm_insertionSort (fun a b : Credential => !b.before a)
    (candidates s rpIdHash allowList)
  exact ⟨(AllCurrent.mk hids fun c hc => h.current c (hmem c hc)).perm hperm.symm,
    fun c hc => hmem c (hperm.subset hc)⟩

/-- The frame of the checks and the prompt of a getAssertion. -/
theorem counting_checkOps (D : Device) : CheckOps D (countingFrame.and (logGrows.and listKept)) :=
  (counting_rowOps D).callOps.toCheckOps.and
    ((logGrows_pieces D).toCheckOps.and (listKept_u2fOps D).toCheckOps)

/-- A getAssertion counts from rows as they are stored, and leaves the others in the list. -/
theorem Counting.cmdGetAssertion (h : Counting w) (hmax : BelowMax w) (body : Bytes) (call : Call) :
    Counts (cmdGetAssertion D body) w fun r => SealedAnswer call (.cbor r) := by
  have h₀ := h.dropNext
  refine run_bind.mpr (run_modify.mpr (run_bind.mpr
    (run_ofExcept.mpr ⟨fun q _ => ?_, fun _ _ _ => h₀⟩)))
  refine run_bind.mpr (run_gets.mpr (run_bind.mpr ?_))
  refine (((counting_checkOps D).checkPinAuth _ _ _ _ _ _ _).run _).mono ?_
    (fun _ _ h₁ => h₁.1 fun _ => h₀) fun _ h₁ => h₁.1 fun _ => h₀
  rintro uv w₁ ⟨hcount₁, hlog₁, hnext₁⟩
  obtain ⟨hrows, hstored⟩ := h.1.1.sortCandidates (D.provider.sha256 q.rpId) q.allowList
  dsimp only
  generalize sortCandidates (candidates w.store (D.provider.sha256 q.rpId) q.allowList) = l
    at hrows hstored ⊢
  rcases l with _ | ⟨first, rest⟩
  · exact fun hd => hcount₁ (fun _ => h₀) hd
  have hcurrent : ∀ w', logGrows.rel w w' → AllCurrent w'.log (first :: rest) := fun w' hw' =>
    ⟨hrows.ids, fun c hc => (hrows.current c hc).grow hw'⟩
  refine run_assertFirst (M := fun w₂ => ((drawn w₂.log).Nodup → Counting w₂) ∧ w₂.next = none ∧
    AllCurrent w₂.log (first :: rest)) ?_ (fun w₂ w₃ ⟨hcount₂, hnone, hlist⟩ hopened => ?_)
    fun w₂ e h₂ hd => (h₂.1 hd).2
  · refine (((counting_checkOps D).confirmAssertion q _ first).run w₁).mono ?_
      (fun _ _ h₂ => h₂.1 (hcount₁ fun _ => h₀)) fun _ h₂ => h₂.1 (hcount₁ fun _ => h₀)
    rintro _ w₂ ⟨hcount₂, hlog₂, hnext₂⟩
    refine ⟨hcount₂ (hcount₁ fun _ => h₀), ?_, hcurrent w₂ (logGrows.trans hlog₁ hlog₂)⟩
    exact hnext₂.elim (fun hn => hn.trans (hnext₁.elim id id)) id
  · have hgrow := (logGrows_credNeutral D).assertOps.buildAssertion (D := D) first
      (D.provider.sha256 q.rpId) q.clientDataHash (assertionFlags uv q.up) q.up q.ext
      (some (rest.length + 1))
    refine run_whileOk (fun _ _ => nodup_drawn_mono) hgrow fun hd => ?_
    have hfirst := hlist.current first List.mem_cons_self
    have hbelow : ∀ c ∈ first :: rest, c.signCount ≠ 0xFFFFFFFF := fun c hc => hmax c (hstored c hc)
    -- the list that is left holds the rest
    have hopen : Counting w₃ ∧ Current w₃.log first ∧ ∀ st, w₃.next = some st →
        ∀ c ∈ st.remaining, c.credId.bytes ≠ first.credId.bytes := by
      rcases hopened with ⟨-, rfl⟩ | ⟨-, e, -, rfl⟩
      · refine ⟨hcount₂ hd, hfirst, fun st hst => ?_⟩
        rw [hnone] at hst
        cases hst
      · have h₂ := hcount₂ hd
        refine ⟨⟨⟨h₂.1.1, fun st' hst' => ?_⟩, h₂.2⟩, hfirst, fun st' hst' => ?_⟩
        · obtain rfl := Option.some.inj hst'
          refine ⟨(assertionFlags_up uv q.up).mp, fun _ => ⟨?_, fun c hc => ?_⟩⟩
          · exact hlist.sublist (List.sublist_cons_self _ _)
          · exact hbelow c (List.mem_cons_of_mem _ hc)
        · obtain rfl := Option.some.inj hst'
          exact hlist.head_spared
    refine (hopen.1.buildAssertion (assertionFlags_up uv q.up).mp (fun _ => ⟨hopen.2.1,
      hbelow first List.mem_cons_self, fun st hst _ => hopen.2.2 st hst⟩) _ _ _ _ call).mono
      (fun _ _ h' _ => h') (fun _ _ h' _ => h'.dropNext) fun _ h' _ => h'

/-! ### U2F -/

theorem enforcedHandle_eq {apdu : Bytes} {req : Apdu} (hreq : parseApdu apdu = some req)
    (hcla : req.cla = 0) (hins : req.ins = 0x02) (hp : req.p1 = kAuthEnforce) :
    (Call.u2f apdu).enforcedHandle = some (req.data.drop 65) := by
  rw [Call.enforcedHandle, hreq]
  exact if_pos ⟨hcla, hins, hp⟩

/-- A U2F authentication counts from a row as it is stored, which must not wait in the
list. -/
theorem Counting.u2fAuthenticate (h : Counting w) (hmax : BelowMax w) {apdu : Bytes} {req : Apdu}
    (hreq : parseApdu apdu = some req) (hcla : req.cla = 0) (hins : req.ins = 0x02)
    (hfree : ∀ st, w.next = some st → st.bumpCounter = true →
      ∀ c ∈ st.remaining, (Call.u2f apdu).enforcedHandle ≠ some c.credId.bytes) :
    Counts (u2fAuthenticate D req.p1 req.data) w fun r => SealedAnswer (.u2f apdu) (.u2f r) := by
  refine run_bind.mpr (run_require.mpr ⟨fun _ => ?_, fun _ _ => h⟩)
  refine run_bind.mpr (run_require.mpr ⟨fun _ => ?_, fun _ _ => h⟩)
  refine run_bind.mpr (run_require.mpr ⟨fun _ => ?_, fun _ _ => h⟩)
  refine run_bind.mpr (run_gets.mpr ?_)
  dsimp only
  rcases hfound : w.store.find _ _ with _ | cred
  · exact fun _ => h
  have hmem : cred ∈ w.store.creds := List.mem_of_find?_eq_some hfound
  have hhandle : cred.credId.bytes = req.data.drop 65 := by
    have hboth := List.find?_some hfound
    simp only [Bool.and_eq_true, beq_iff_eq] at hboth
    exact hboth.2
  refine run_bind.mpr (run_require.mpr ⟨fun _ => ?_, fun _ _ => h⟩)
  refine run_ite.mpr ⟨fun hp => ?_, fun hp => ?_⟩
  · have henforced := enforcedHandle_eq hreq hcla hins hp
    refine run_bind.mpr ((((counting_checkOps D).confirmUp _ _ _ _).run w).mono ?_
      (fun _ _ h₁ => h₁.1 fun _ => h) fun _ h₁ => h₁.1 fun _ => h)
    rintro d w₁ ⟨hcount, hlog, hnext⟩
    refine run_bind.mpr (run_require.mpr ⟨fun _ => ?_, fun _ => hcount fun _ => h⟩)
    refine run_whileOk (fun _ _ => nodup_drawn_mono)
      (((logGrows_credNeutral D).assertOps.signChallenge _ _ _ _).orFail _) fun hd => ?_
    have h₁ := hcount (fun _ => h) hd
    refine Counts.of_run (run_orFail.mpr (run_signChallenge (fun _ _ => h₁)
      (fun hf => absurd hp (of_decide_eq_false hf)) (fun _ now e sig => ?_) fun _ => h₁.2))
    have h₁' : Counting (w₁.withEnv e) := h₁
    refine (h₁'.used ((h.1.1.current cred hmem).grow hlog) (hmax cred hmem) ?_ now).weaken ?_
    · -- the list is as it was, and does not hold the handle, or it has been dropped
      intro st hst hb c hc heq
      rcases hnext with hnext | hnext
      · have hst' : w.next = some st := hnext ▸ hst
        exact hfree st hst' hb c hc (by rw [henforced, heq, hhandle])
      · rw [World.withEnv, hnext] at hst
        cases hst
    · rintro _ w' ⟨hw', hsealed⟩
      refine ⟨hw', fun p hp => ?_⟩
      rw [upCounter, if_pos rfl, henforced, Option.map_some] at hp
      rw [← Option.some.inj hp, ← hhandle]
      exact hsealed
  · refine Counts.of_run (run_orFail.mpr (run_signChallenge (fun _ _ => h)
      (fun _ sig e => ⟨h, fun p hp' => ?_⟩) (fun hf => absurd (of_decide_eq_true hf) hp)
        fun _ => h.2))
    rw [upCounter, if_neg (by decide)] at hp'
    cases hp'

end Commands

/-! ### Every run -/

/-- The step is not a U2F authentication that uses a row which waits in the list to be used
by getNextAssertion. -/
def Undisturbed (w : World) : Step → Prop
  | .call c _ => ∀ st, w.next = some st → st.bumpCounter = true →
    ∀ cred ∈ st.remaining, c.enforcedHandle ≠ some cred.credId.bytes
  | .restart _ => True

section Run

variable {D : Device} {w : World}

/-- A sealed counter is made known. -/
theorem Counting.answered {c : Call} {a : Answer} (h : Counting w) (ha : SealedAnswer c a w) :
    Counting (w.emits [.answered c a]) := by
  obtain ⟨⟨hrows, hlist⟩, hsource, hfile⟩ := h
  refine ⟨⟨⟨hrows.ids, fun e he => ?_⟩, fun st hst => ⟨(hlist st hst).1, fun hb => ?_⟩⟩,
    fun p hp => ?_, fun s hs => ⟨(hfile s hs).ids, fun e he => ?_⟩⟩
  · exact (hrows.current e he).answered fun p hp heq => (ha p hp).stored e he heq
  · obtain ⟨hrem, hmax⟩ := (hlist st hst).2 hb
    refine ⟨⟨hrem.ids, fun e he => (hrem.current e he).answered fun p hp heq => ?_⟩, hmax⟩
    exact absurd heq ((ha p hp).spared st hst hb e he)
  · -- a counter was claimed before, or is that of this answer
    have hsplit : p ∈ claimed w.log ∨ upCounter c a = some p := by
      rw [World.emits, claimed_append, claimed_answered] at hp
      exact (List.mem_append.mp hp).imp_right Option.mem_toList.mp
    obtain ⟨id, hid, heq⟩ := hsplit.elim (hsource p) fun hp => (ha p hp).known
    refine ⟨id, ?_, heq⟩
    rw [World.emits, drawn_append]
    exact List.mem_append_left _ hid
  · exact ((hfile s hs).current e he).answered fun p hp heq => (ha p hp).saved s hs e he heq

theorem FileCurrent.restart (h : FileCurrent w) : Counting w.restart := by
  have hsaved : AllCurrent w.log (w.file.getD {}).creds := by
    rcases hf : w.file with _ | s
    · exact .nil
    · exact h.2 s hf
  have hnone : Counting { w with store := w.file.getD {}, next := none } :=
    ⟨⟨hsaved, fun st hst => by cases hst⟩, h⟩
  exact hnone.emits (l := [.restarted]) rfl

/-- The invariant of a run. -/
def Growing (w : World) : Prop := Counting w ∧ Increasing (claimed w.log)

theorem Increasing.answered {c : Call} {a : Answer} (h : Increasing (claimed w.log))
    (ha : SealedAnswer c a w) : Increasing (claimed (w.emits [.answered c a]).log) := by
  rw [World.emits, claimed_append, claimed_answered]
  refine List.pairwise_append.mpr ⟨h, ?_, fun p hp q hq heq => ?_⟩
  · rcases upCounter c a with _ | q
    · exact List.Pairwise.nil
    · exact List.pairwise_singleton _ _
  · exact (ha q (Option.mem_toList.mp hq)).new p.2 (heq ▸ hp)

/-- A call keeps everything current, and seals the counter of its answer. -/
theorem Counting.answer (h : Counting w) (hmax : BelowMax w) {c : Call}
    (hfree : ∀ st, w.next = some st → st.bumpCounter = true →
      ∀ cred ∈ st.remaining, c.enforcedHandle ≠ some cred.credId.bytes) :
    Counts (answer D c) w (SealedAnswer c) := by
  have hops := (counting_rowOps D).callOps
  have hentered : Counting (w.entered c) := by
    unfold World.entered
    split
    · split
      · exact h
      · exact h.dropNext
    · exact h
  -- what is shown of a command is shown of the call
  have hdone : ∀ {α : Type} (f : α → Answer) (a : α) (w' : World),
      ((drawn w'.log).Nodup → Counting w' ∧ SealedAnswer c (f a) w') → ∀ e,
      ((drawn w'.log).Nodup → Counting w' ∧ SealedAnswer c (f a) (w'.withEnv e)) ∧
        ((drawn w'.log).Nodup → FileCurrent w') := fun f a w' hw' e =>
    ⟨fun hd => ⟨(hw' hd).1, fun p hp => ((hw' hd).2 p hp).withEnv e⟩, fun hd => (hw' hd).1.2⟩
  refine run_answer hops ?_ (fun _ _ hw hd => hw (fun _ => hentered) hd)
    (fun _ hw hd => hw (fun _ => hentered) hd) ?_ ?_ ?_ ?_
  · intro a w' hplain hw hd
    refine ⟨hw (fun _ => hentered) hd, fun p hp => ?_⟩
    have hnone : upCounter c a = none := by
      unfold upCounter
      split <;> first | rfl | exact hplain.elim
    rw [hnone] at hp
    cases hp
  · intro body _
    have hchecks := (hops.toCheckOps.makeCredentialChecks body).run { w with next := none }
    refine run_bind.mpr (hchecks.mono (fun a w₁ h₁ => ?_) (fun _ _ h₁ => h₁ fun _ => h.dropNext)
      fun _ h₁ => h₁ fun _ => h.dropNext)
    refine (run_whileOk (fun _ _ => nodup_drawn_mono) ((logGrows_pieces D).createCredential _ _)
      fun hd => (h₁ (fun _ => h.dropNext) hd).createCredential _ _ c).mono ?_ (fun _ _ h₂ => h₂)
      fun _ h₂ => h₂
    exact hdone .cbor
  · intro body _
    exact (h.dropNext.cmdGetAssertion hmax body c).mono (hdone .cbor) (fun _ _ h₁ => h₁)
      fun _ h₁ => h₁
  · intro rest _
    exact (h.cmdGetNextAssertion c).mono (fun r w' h₁ => hdone .cbor r w' fun _ => h₁)
      (fun _ _ h₁ _ => h₁) fun _ h₁ _ => h₁
  · rintro apdu req rfl hreq hcla hins
    exact (h.u2fAuthenticate hmax hreq hcla hins hfree).mono (hdone .u2f) (fun _ _ h₁ => h₁)
      fun _ h₁ => h₁

theorem Growing.step {s : Step} (h : Growing w) (hmax : BelowMax w) (hfree : Undisturbed w s) :
    (drawn (s.exec D w).log).Nodup → Growing (s.exec D w) := by
  cases s with
  | restart env =>
    refine fun _ => ⟨FileCurrent.restart (w := w.withEnv env) h.1.2, ?_⟩
    change Increasing (claimed (w.log ++ [.restarted]))
    rw [claimed_append]
    exact (List.append_nil _).symm ▸ h.2
  | call c env =>
    have hbegin : Counting (w.begin c env) := h.1.emits (w := w.withEnv env)
      (l := [.called c]) rfl
    have hclaimed : ∀ w', logGrows.rel (w.begin c env) w' → claimed w'.log = claimed w.log := by
      rintro w' ⟨evs, hlog, hinner⟩
      rw [hlog, claimed_append, claimed_of_inner hinner, List.append_nil, World.begin,
        claimed_append]
      exact List.append_nil _
    have hpre : ∀ (w' : World) ev, (drawn (w'.emits [ev]).log).Nodup → (drawn w'.log).Nodup :=
      fun w' ev => nodup_drawn_mono (List.prefix_append _ _)
    -- what runs inside a call claims nothing; only its answer does
    have hgrow := ((logGrows_pieces D).answer c).run (w.begin c env)
    refine World.call_of_run (P := fun w' => (drawn w'.log).Nodup → Growing w')
      ((hgrow.and (hbegin.answer (D := D) hmax hfree)).mono ?_ ?_ ?_)
    · rintro a w' ⟨hlog, hw'⟩ hd
      obtain ⟨hcount, hsealed⟩ := hw' (hpre w' _ hd)
      exact ⟨hcount.answered hsealed, Increasing.answered (hclaimed w' hlog ▸ h.2) hsealed⟩
    · rintro r w' ⟨hlog, hw'⟩ hd
      refine ⟨(hw' (hpre w' _ hd)).emits rfl, ?_⟩
      rw [World.emits, claimed_append, hclaimed w' hlog]
      exact (List.append_nil _).symm ▸ h.2
    · rintro w' ⟨hlog, hw'⟩ hd
      refine ⟨FileCurrent.restart (hw' (hpre w' .restarted hd)), ?_⟩
      change Increasing (claimed (w'.log ++ [.restarted]))
      rw [claimed_append, hclaimed w' hlog]
      exact (List.append_nil _).symm ▸ h.2

end Run

/-- **Signature counters never repeat or go back.** In every run of a fresh installation in
which the random generator repeats no credential id, no counter gets to its end and no U2F
authentication uses a row that waits in the pending list, whatever fails and wherever the
process dies and restarts, the counters that successes with user presence carry for one
credential are strictly increasing. -/
theorem counters_increasing (D : Device) (env : Env) (steps : List Step)
    (hdrawn : (drawn ((World.fresh env).run D steps).log).Nodup)
    (hmax : (World.fresh env).Along D (fun w _ => BelowMax w) steps)
    (hfree : (World.fresh env).Along D Undisturbed steps) :
    Increasing (claimed ((World.fresh env).run D steps).log) := by
  have hfresh : Growing (World.fresh env) :=
    ⟨⟨⟨.nil, fun st hst => by cases hst⟩, fun p hp => (by cases hp), fun s hs => by cases hs⟩,
      List.Pairwise.nil⟩
  refine ((hmax.and hfree).induction (I := fun w => (drawn w.log).Nodup → Growing w) ?_
    (fun _ => hfresh) hdrawn).2
  intro w s hs hw hd
  exact (hw (nodup_drawn_mono (Step.log_isPrefix w s) hd)).step hs.1 hs.2 hd

/-- Two credentials of one RP are made and used, one of them from the list. -/
theorem counters_increasing_listed :
    let steps := [Step.call (.makeCredential [0x61] [1]) (.calm 1),
      .call (.makeCredential [0x61] [2]) (.calm 2), .call (.getAssertion [0x61]) (.calm 3),
      .call .getNextAssertion (.calm 4), .call (.getAssertion [0x61]) (.calm 5)]
    (drawn ((World.fresh (.calm 0)).run .plain steps).log).Nodup ∧
      (World.fresh (.calm 0)).Along .plain (fun w _ => BelowMax w) steps ∧
      (World.fresh (.calm 0)).Along .plain Undisturbed steps ∧
      Increasing (claimed ((World.fresh (.calm 0)).run .plain steps).log) := by
  intro steps
  have hdrawn : (drawn ((World.fresh (.calm 0)).run .plain steps).log).Nodup := by decide +kernel
  have hmax : (World.fresh (.calm 0)).Along .plain (fun w _ => BelowMax w) steps := by
    unfold BelowMax
    refine ⟨?_, ?_, ?_, ?_, ?_, trivial⟩ <;> decide +kernel
  have hfree : (World.fresh (.calm 0)).Along .plain Undisturbed steps := by
    have hcbor : ∀ w request env, Undisturbed w (.call (.cbor request) env) :=
        fun _ _ _ _ _ _ _ _ h => by
      cases h
    exact ⟨hcbor _ _ _, hcbor _ _ _, hcbor _ _ _, hcbor _ _ _, hcbor _ _ _, trivial⟩
  exact ⟨hdrawn, hmax, hfree, counters_increasing _ _ _ hdrawn hmax hfree⟩

/-- Between getAssertion and getNextAssertion a U2F authentication uses the row that waits in
the list: both answers carry the counter 2. -/
theorem not_counters_increasing : ¬ ∀ (D : Device) (env : Env) (steps : List Step),
    (drawn ((World.fresh env).run D steps).log).Nodup →
      (World.fresh env).Along D (fun w _ => BelowMax w) steps →
      Increasing (claimed ((World.fresh env).run D steps).log) := by
  intro h
  have hrun := h .plain (.calm 0) [.call (.makeCredential [0x61] [1]) (.calm 1),
    .call (.makeCredential [0x61] [2]) (.calm 2), .call (.getAssertion [0x61]) (.calm 3),
    .call (.u2fSign (Device.plain.provider.sha256 [0x61]) (Block.replicate 32 2)) (.calm 4),
    .call .getNextAssertion (.calm 5)] (by decide +kernel) (by
      unfold BelowMax
      refine ⟨?_, ?_, ?_, ?_, ?_, trivial⟩ <;> decide +kernel)
  revert hrun
  unfold Increasing
  decide +kernel

end Swpasskey
