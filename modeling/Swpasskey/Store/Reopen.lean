import Swpasskey.Store.FileStore

/-!
# Saved means reopenable

When is the file that `save` has written opened again, by a later process with a keychain that
works? The file names the install id, the keychain holds a DEK for it, and the persister seals
with the DEK in memory; so the two DEKs must agree when the save is made. They do from
`open_file_store` on (`Inv`), and every step keeps them so but one: a factory reset that fails
to draw or to store the new DEK has already dropped the old one, and leaves the store open with
a DEK that is in no keychain. Everything saved from then on is lost, until a reset succeeds.
-/

namespace Swpasskey.FileStore

open Store Proc

variable {G : Gcm} {s s' : System} {d : Disk} {p : FilePersister} {pt : Bytes}

/-- A later process, with a file system and a keychain that work, opens the store from exactly
this plaintext. -/
def Reopens (G : Gcm) (d : Disk) (pt : Bytes) : Prop :=
  ∃ p st, readStore G d.keychain (d.file.getD []) = some (p, pt) ∧ openWith pt = .ok st ∧
    ∀ a : OpenAnswers, a.reads = true → a.loads = true → openFileStore G a d =
      (some { store := { st with installId := p.installId }, persister := p }, none, d)

theorem readStore_nil (G : Gcm) (keychain : Keychain) :
    readStore G keychain [] = none := rfl

theorem reopens_of {st : Store} (hread : readStore G d.keychain (d.file.getD []) = some (p, pt))
    (hopen : openWith pt = .ok st) : Reopens G d pt := by
  refine ⟨p, st, hread, hopen, fun a hreads hloads => ?_⟩
  have hne : (d.file.getD []).isEmpty = false := by
    rw [List.isEmpty_eq_false_iff]
    intro hnil
    rw [hnil, readStore_nil] at hread
    cases hread
  simp [openFileStore, hreads, hloads, hne, hread, hopen]

/-- The keychain's item is the DEK in memory. -/
def InSync (d : Disk) (p : FilePersister) : Prop := d.keychain (hex p.installId.bytes) = some p.dek

/-- A save under a key that the keychain holds. -/
theorem InSync.reopens_file {st : Store} {nonce : Block 12} (hsync : InSync d p) (hG : G.Lawful)
    (hvalid : ∀ c ∈ st.creds, validate c = .ok ()) (hlen : st.serialize.length < 2 ^ 31) :
    Reopens G { d with file := some (encodeFile G p nonce st.serialize) } st.serialize := by
  obtain ⟨hsized, hrows⟩ := allSized_of_length (hlen.trans (by decide))
  exact reopens_of (readStore_encodeFile hG hlen hsync) (openWith_serialize hsized hrows hvalid)

/-! ### What is handed to the persister -/

/-- The rows are valid, and what was saved, if anything, is the store in memory. -/
def Kept (w : World) : Prop :=
  (∀ c ∈ w.store.creds, validate c = .ok ()) ∧
    (w.lastSaved = none ∨ w.lastSaved = some w.store.serialize)

section Exec

variable {w : World}

theorem kept_flushed (w : World) (m : Mutator) (e : Env) (ok : Bool)
    (hvalid : ∀ c ∈ w.store.creds, validate c = .ok ()) (hnone : w.lastSaved = none) :
    Kept (w.flushed m e ok) := by
  cases ok
  · exact ⟨hvalid, .inl hnone⟩
  · exact ⟨hvalid, .inr rfl⟩

theorem exec_kept {op : Op} (hop : ∀ destroy, op ≠ .factoryReset destroy)
    (hvalid : ∀ c ∈ w.store.creds, validate c = .ok ()) (hnone : w.lastSaved = none) :
    op.exec.Run w (fun _ => Kept) (fun _ => Kept) fun w' => w'.lastSaved = none := by
  have hw : Kept w := ⟨hvalid, .inl hnone⟩
  have hrows : ∀ {l : List Credential} (m : Mutator) (e : Env) (ok : Bool),
      (∀ c ∈ l, validate c = .ok ()) → Kept ((w.withCreds l).flushed m e ok) := fun m e ok hl =>
    kept_flushed (w.withCreds _) m e ok hl hnone
  cases op with
  | put c =>
    refine run_put (fun _ => hw) (fun e hc _ => hrows _ e true fun b hb => ?_)
      (fun e => kept_flushed w _ e false hvalid hnone) fun _ => hnone
    rcases mem_putRows hb with rfl | hb
    · exact hc
    · exact hvalid b hb
  | erase credId =>
    refine run_erase (fun _ => hw) (fun c e _ => hrows _ e true fun b hb => ?_)
      (fun c e hc => hrows _ e false fun b hb => ?_) fun _ _ _ => hnone
    · exact hvalid b (eraseRows_sublist.subset hb)
    · rcases List.mem_append.mp hb with hb | hb
      · exact hvalid b (eraseRows_sublist.subset hb)
      · rw [List.mem_singleton.mp hb]
        exact hvalid c (mem_of_findById hc).1
  | updateCountAndUsed credId n t =>
    have hused : ∀ c, w.store.findById credId = some c →
        ∀ b ∈ replaceFirst (c.used n t) w.store.creds, validate b = .ok () := by
      intro c hc b hb
      rcases mem_replaceFirst hb with rfl | hb
      · exact hvalid c (mem_of_findById hc).1
      · exact hvalid b hb
    exact run_updateCountAndUsed hw (fun c e hc => hrows _ e true (hused c hc))
      (fun c e hc => hrows _ e false (hused c hc)) fun _ _ _ => hnone
  | setPin p =>
    exact run_setPin (fun e => kept_flushed (w.withPin p) _ e true hvalid hnone)
      (fun e => kept_flushed (w.withPin p) _ e false hvalid hnone) fun _ => hnone
  | tpmStateOrCreate =>
    exact run_bind.mpr (run_tpmStateOrCreate (fun _ => hw)
      (fun t e => kept_flushed (w.withTpm t) _ e true hvalid hnone)
        (fun _ _ _ => ⟨hvalid, .inl hnone⟩)
      (fun t e => kept_flushed (w.withTpm t) _ e false hvalid hnone) fun _ _ => hnone)
  | clearTpmState =>
    exact run_bind.mpr (run_flush (fun e => kept_flushed (w.withTpm {}) _ e true hvalid hnone)
      (fun e => kept_flushed (w.withTpm {}) _ e false hvalid hnone) fun _ => hnone)
  | setU2fAttestation a =>
    let w' : World := { w with store := { w.store with u2f := some a } }
    exact run_bind.mpr (run_flush (fun e => kept_flushed w' _ e true hvalid hnone)
      (fun e => kept_flushed w' _ e false hvalid hnone) fun _ => hnone)
  | setSerial serial =>
    let w' : World := { w with store := { w.store with serial := serial } }
    exact run_setSerial (fun _ => hw) (fun e _ => kept_flushed w' _ e true hvalid hnone)
      (fun e => kept_flushed w' _ e false hvalid hnone) fun _ => hnone
  | factoryReset destroy => exact absurd rfl (hop destroy)

/-- The empty store is saved only when the persister's reset has succeeded. -/
theorem wipe_kept (hnone : w.lastSaved = none) :
    wipe.Run w (fun _ w' => Kept w' ∧ (w.env.reset.head.1 = false → w'.lastSaved = none))
      (fun _ w' => Kept w' ∧ (w.env.reset.head.1 = false → w'.lastSaved = none))
      fun w' => w'.lastSaved = none := by
  have hempty : ∀ c ∈ w.wiped.store.creds, validate c = .ok () := fun c hc => by cases hc
  by_cases hcrash : w.env.crash = some 0
  · rw [Run, wipe_died hcrash]
    exact hnone
  rw [Run, wipe_apply hcrash]
  split_ifs with hok
  · exact run_flush (fun e => ⟨kept_flushed (w.wiped.persisterReset _ _ _) _ e true hempty hnone,
      fun hfalse => by cases hok.symm.trans hfalse⟩)
      (fun e => ⟨kept_flushed (w.wiped.persisterReset _ _ _) _ e false hempty hnone,
        fun hfalse => by cases hok.symm.trans hfalse⟩)
      fun _ => hnone
  · exact ⟨⟨hempty, .inl hnone⟩, fun _ => hnone⟩

end Exec

/-- A save that succeeds, and one that does not. -/
theorem save_cases (G : Gcm) (p : FilePersister) (pt : Bytes) (a : SaveAnswers) (d : Disk) :
    (a.ok = false ∧ save G p pt a d = (false, d)) ∨ ∃ nonce, a.ok = true ∧
      save G p pt a d = (true, { d with file := some (encodeFile G p nonce pt) }) := by
  unfold save SaveAnswers.ok
  rcases a.nonce with _ | nonce
  · exact .inl ⟨rfl, rfl⟩
  by_cases hencrypts : a.encrypts = true
  · by_cases hwrites : a.writes = true
    · exact .inr ⟨nonce, by simp [hencrypts, hwrites], by simp [hencrypts, hwrites]⟩
    · exact .inl ⟨by simp [hwrites], by simp [hencrypts, hwrites]⟩
  · exact .inl ⟨by simp [hencrypts], by simp [hencrypts]⟩

/-- A save that is not made or fails leaves the disk alone. -/
theorem persist_cases (G : Gcm) (p : FilePersister) (a : SaveAnswers) (d : Disk)
    (plaintext : Option Bytes) : persist G p a d plaintext = (none, d) ∨
      ∃ pt nonce, plaintext = some pt ∧ a.ok = true ∧ persist G p a d plaintext =
        (some pt, { d with file := some (encodeFile G p nonce pt) }) := by
  rcases plaintext with _ | pt
  · exact .inl rfl
  · rcases save_cases G p pt a d with ⟨-, hsave⟩ | ⟨nonce, hok, hsave⟩
    · exact .inl (by rw [persist, hsave])
    · exact .inr ⟨pt, nonce, rfl, hok, by rw [persist, hsave]⟩

/-! ### Runs -/

/-- What is assumed of the keychain: after a `store_dek` that reports success, `load_dek` returns
this DEK. -/
def Faithful (s : System) : Action → Prop
  | .openStore a => a.stored.ok = true → ∀ installId ∈ a.installId, ∀ dek ∈ a.dek,
      a.stored.keychain (hex installId.bytes) = some dek
  | .factoryReset _ r _ => r.stored.ok = true → ∀ ses ∈ s.session,
      r.stored.keychain (hex ses.persister.installId.bytes) = some r.drawn.2
  | _ => True

instance : (s : System) → (a : Action) → Decidable (Faithful s a)
  | _, .openStore a => inferInstanceAs (Decidable (a.stored.ok = true → _))
  | _, .factoryReset _ r _ => inferInstanceAs (Decidable (r.stored.ok = true → _))
  | _, .mutate .. => instDecidableTrue
  | _, .close => instDecidableTrue

/-- A save that succeeds, outside of a reset. -/
def Action.saves : Action → Bool
  | .mutate _ _ a => a.ok
  | _ => false

/-- Nothing is saved while a reset is half done. -/
def Orderly (s : System) (a : Action) : Prop :=
  Faithful s a ∧ ∀ ses ∈ s.session, ses.halfReset = true → a.saves = false

instance (s : System) (a : Action) : Decidable (Orderly s a) :=
  inferInstanceAs (Decidable (Faithful s a ∧ ∀ ses ∈ s.session, _))

/-- What holds along the orderly runs. -/
structure Inv (G : Gcm) (s : System) : Prop where
  valid : ∀ ses, s.session = some ses → ∀ c ∈ ses.store.creds, validate c = .ok ()
  inSync : ∀ ses, s.session = some ses → ses.halfReset = false → InSync s.disk ses.persister
  saved : ∀ pt, s.saved = some pt → pt.length < 2 ^ 31 → Reopens G s.disk pt

theorem survivor_eq_some {half : Bool} {out : Outcome Status Unit × World} {ses : Session}
    (h : survivor p half out = some ses) :
    out.1 ≠ .died ∧ ses = ⟨out.2.store, p, half⟩ := by
  obtain ⟨_ | _ | _, w⟩ := out
  · cases h
    exact ⟨by simp, rfl⟩
  · cases h
    exact ⟨by simp, rfl⟩
  · cases h

/-- The rows of a store that survives are valid, and only a store that is in memory is saved. -/
theorem kept_of_run {m : Cmd Status Unit} {w : World}
    (h : m.Run w (fun _ => Kept) (fun _ => Kept) fun w' => w'.lastSaved = none) :
    ((m w).1 ≠ .died → Kept (m w).2) ∧
      ∀ pt, (m w).2.lastSaved = some pt → Kept (m w).2 ∧ pt = (m w).2.store.serialize := by
  have halive : (m w).1 ≠ .died → Kept (m w).2 := by
    rcases hout : m w with ⟨r | e | _, w'⟩
    · exact fun _ => h.ok hout
    · exact fun _ => h.err hout
    · exact fun hne => absurd rfl hne
  refine ⟨halive, fun pt hpt => ?_⟩
  have hkept : Kept (m w).2 := by
    refine halive fun hdied => ?_
    have hnone : (m w).2.lastSaved = none := h.died (Prod.ext hdied rfl)
    cases hnone.symm.trans hpt
  refine ⟨hkept, ?_⟩
  rcases hkept.2 with hnone | hsome
  · cases hnone.symm.trans hpt
  · exact Option.some.inj (hpt.symm.trans hsome)

/-- What becomes of a plaintext that is handed to the persister. -/
theorem persist_spec (hG : G.Lawful) {a : SaveAnswers} {plaintext : Option Bytes} {st : Store}
    (hstore : ∀ pt, plaintext = some pt →
      (∀ c ∈ st.creds, validate c = .ok ()) ∧ pt = st.serialize)
    (hsync : plaintext ≠ none → a.ok = true → InSync d p) :
    (persist G p a d plaintext).2.keychain = d.keychain ∧
      ((persist G p a d plaintext).1 = none → (persist G p a d plaintext).2 = d) ∧
      ∀ pt, (persist G p a d plaintext).1 = some pt → pt.length < 2 ^ 31 →
        Reopens G (persist G p a d plaintext).2 pt := by
  rcases persist_cases G p a d plaintext with hout | ⟨pt, nonce, rfl, hok, hout⟩
  · rw [hout]
    exact ⟨rfl, fun _ => rfl, fun pt hpt => by cases hpt⟩
  · rw [hout]
    refine ⟨rfl, fun hnone => (by cases hnone), ?_⟩
    rintro _ ⟨⟩ hlen
    obtain ⟨hvalid, rfl⟩ := hstore pt rfl
    exact (hsync (by simp) hok).reopens_file hG hvalid hlen

theorem Inv.mutated (h : Inv G s) (hG : G.Lawful) {ses : Session}
    (hses : s.session = some ses) {op : Op}
    (hop : ∀ destroy, op ≠ .factoryReset destroy) (e : Env) {a : SaveAnswers}
    (horderly : ses.halfReset = true → a.ok = false) : Inv G (mutated G s ses op e a) := by
  let w : World := { store := ses.store, env := { e with save := Stream'.const a.ok } }
  obtain ⟨halive, hsaved⟩ := kept_of_run (exec_kept (w := w) hop (h.valid ses hses) rfl)
  obtain ⟨hkeychain, hsame, hreopens⟩ := persist_spec hG (a := a) (d := s.disk) (p := ses.persister)
    (fun pt hpt => ⟨(hsaved pt hpt).1.1, (hsaved pt hpt).2⟩)
    (fun _ hok => h.inSync ses hses (by_contra fun hhalf => by
      simp [horderly (Bool.eq_true_of_not_eq_false hhalf)] at hok))
  refine ⟨fun ses' hses' => ?_, fun ses' hses' hhalf => ?_, fun pt hpt hlen => ?_⟩
  · obtain ⟨hne, rfl⟩ := survivor_eq_some hses'
    exact (halive hne).1
  · obtain ⟨-, rfl⟩ := survivor_eq_some hses'
    exact (congrFun hkeychain _).trans (h.inSync ses hses hhalf)
  · rcases hout : (persist G ses.persister a s.disk (op.exec w).2.lastSaved).1 with _ | pt'
    · have hold : s.saved = some pt := by
        have hpt : (persist G ses.persister a s.disk (op.exec w).2.lastSaved).1.or s.saved =
          some pt := hpt
        rwa [hout] at hpt
      have hdisk : (FileStore.mutated G s ses op e a).disk = s.disk := hsame hout
      rw [hdisk]
      exact h.saved pt hold hlen
    · have hnew : pt' = pt := by
        have hpt : (persist G ses.persister a s.disk (op.exec w).2.lastSaved).1.or s.saved =
          some pt := hpt
        rw [hout] at hpt
        exact Option.some.inj hpt
      exact hreopens pt (hnew ▸ hout) hlen

/-- After a reset that has reported success, the keychain holds the new DEK. -/
theorem inSync_reset {r : ResetAnswers} (hfaithful : r.stored.ok = true →
      r.stored.keychain (hex p.installId.bytes) = some r.drawn.2)
    (hok : (reset p r d).1 = true) : InSync (reset p r d).2.2 (reset p r d).2.1 := by
  unfold reset at hok ⊢
  dsimp only at hok ⊢
  split_ifs at hok ⊢ with hdrawn
  exact hfaithful hok

theorem Inv.wiped (hG : G.Lawful) {ses : Session} (e : Env) {r : ResetAnswers}
    (hfaithful : r.stored.ok = true →
      r.stored.keychain (hex ses.persister.installId.bytes) = some r.drawn.2) (a : SaveAnswers) :
    Inv G (wiped G s ses e r a) := by
  obtain ⟨out, hout⟩ : ∃ out, out = reset ses.persister r s.disk := ⟨_, rfl⟩
  have hsync : out.1 = true → InSync out.2.2 out.2.1 := by
    rw [hout]
    exact inSync_reset hfaithful
  let w : World := { store := ses.store
                     env := { e with
                       reset := Stream'.const (out.1, true)
                       save := Stream'.const a.ok } }
  have hrun := wipe_kept (w := w) rfl
  obtain ⟨halive, hsaved⟩ := kept_of_run
    (hrun.mono (fun _ _ => And.left) (fun _ _ => And.left) fun _ => id)
  have hreset : (wipe w).2.lastSaved ≠ none → out.1 = true := by
    intro hne
    by_contra hfailed
    have hfailed : w.env.reset.head.1 = false := Bool.eq_false_iff.mpr hfailed
    rcases hend : wipe w with ⟨_ | _ | _, w'⟩ <;> rw [hend] at hne
    · exact hne ((hrun.ok hend).2 hfailed)
    · exact hne ((hrun.err hend).2 hfailed)
    · exact hne (hrun.died hend)
  obtain ⟨hkeychain, hsame, hreopens⟩ := persist_spec hG (a := a) (d := out.2.2) (p := out.2.1)
    (fun pt hpt => ⟨(hsaved pt hpt).1.1, (hsaved pt hpt).2⟩) (fun hne _ => hsync (hreset hne))
  have hwiped : FileStore.wiped G s ses e r a =
      { session := survivor out.2.1 (!out.1) (wipe w)
        saved := (persist G out.2.1 a out.2.2 (wipe w).2.lastSaved).1
        disk := (persist G out.2.1 a out.2.2 (wipe w).2.lastSaved).2 } := by
    rw [FileStore.wiped, ← hout]
  rw [hwiped]
  refine ⟨fun ses' hses' => ?_, fun ses' hses' hhalf => ?_, hreopens⟩
  · obtain ⟨hne, rfl⟩ := survivor_eq_some hses'
    exact (halive hne).1
  · obtain ⟨-, rfl⟩ := survivor_eq_some hses'
    exact (congrFun hkeychain _).trans (hsync (by simpa using hhalf))

/-- The DEK of a file that was read is the keychain's. -/
theorem inSync_readStore {f : Bytes}
    (h : readStore G d.keychain f = some (p, pt)) : InSync d p := by
  unfold readStore at h
  dsimp only at h
  split_ifs at h
  obtain ⟨dek, hdek, hmap⟩ := Option.bind_eq_some_iff.mp h
  obtain ⟨pt', -, heq⟩ := Option.map_eq_some_iff.mp hmap
  cases heq
  exact hdek

section Opened

variable {a : OpenAnswers}

/-- The call has not changed a file that something could be saved in, and no store is open. -/
theorem Inv.failed (h : Inv G s) {d : Disk} (hd : s.disk.file.getD [] = [] ∨ d = s.disk) :
    Inv G { session := none, disk := d, saved := s.saved } := by
  refine ⟨fun _ hses => (by cases hses), fun _ hses => (by cases hses), ?_⟩
  intro pt hpt hlen
  have hreopens := h.saved pt hpt hlen
  rcases hd with hempty | rfl
  · -- there is no file, so nothing can have been saved
    obtain ⟨p, st, hread, -⟩ := hreopens
    rw [hempty, readStore_nil] at hread
    cases hread
  · exact hreopens

/-- A new store is saved under a DEK that was stored. -/
theorem Inv.created (h : Inv G s) (hG : G.Lawful) (hempty : s.disk.file.getD [] = [])
    (hfaithful : a.stored.ok = true → ∀ installId ∈ a.installId, ∀ dek ∈ a.dek,
      a.stored.keychain (hex installId.bytes) = some dek) :
    Inv G { session := (create G a s.disk).1, disk := (create G a s.disk).2.2
            saved := (create G a s.disk).2.1.or s.saved } := by
  unfold create
  rcases hid : a.installId with _ | installId
  · exact h.failed (.inl hempty)
  rcases hdek : a.dek with _ | dek
  · exact h.failed (.inl hempty)
  dsimp only
  by_cases hok : a.stored.ok = true
  · rw [if_neg (not_not.mpr hok)]
    let st : Store := { installId }
    let p : FilePersister := ⟨installId, dek⟩
    let d : Disk := { s.disk with keychain := a.stored.keychain }
    -- the DEK that was stored is the one the file is encrypted under
    have hsync : InSync d p := hfaithful hok installId hid dek hdek
    have hvalid : ∀ c ∈ st.creds, validate c = .ok () := fun c hc => by cases hc
    have hstore : ∀ pt, some st.serialize = some pt →
        (∀ c ∈ st.creds, validate c = .ok ()) ∧ pt = st.serialize := fun pt hpt =>
      ⟨hvalid, Option.some.inj hpt.symm⟩
    obtain ⟨hkeychain, -, hreopens⟩ := persist_spec hG (a := a.save) (d := d) (p := p) hstore
      fun _ _ => hsync
    rcases hsave : save G p st.serialize a.save d with ⟨_ | _, d'⟩
    · exact h.failed (.inl hempty)
    · rw [persist, hsave] at hkeychain hreopens
      refine ⟨?_, ?_, fun pt hpt => hreopens pt hpt⟩
      · rintro _ ⟨⟩
        exact hvalid
      · rintro _ ⟨⟩ -
        exact (congrFun hkeychain _).trans hsync
  · rw [if_pos hok]
    exact h.failed (.inl hempty)

theorem Inv.opened (h : Inv G s) (hG : G.Lawful)
    (hfaithful : a.stored.ok = true → ∀ installId ∈ a.installId, ∀ dek ∈ a.dek,
      a.stored.keychain (hex installId.bytes) = some dek) :
    Inv G { session := (openFileStore G a s.disk).1, disk := (openFileStore G a s.disk).2.2
            saved := (openFileStore G a s.disk).2.1.or s.saved } := by
  unfold openFileStore
  by_cases hreads : a.reads = true
  · rw [if_neg (not_not.mpr hreads)]
    by_cases hempty : (s.disk.file.getD []).isEmpty = true
    · rw [if_pos hempty]
      exact h.created hG (List.isEmpty_iff.mp hempty) hfaithful
    rw [if_neg hempty]
    by_cases hloads : a.loads = true
    · rw [if_neg (not_not.mpr hloads)]
      rcases hread : readStore G s.disk.keychain (s.disk.file.getD []) with _ | ⟨p, pt⟩
      · exact h.failed (.inr rfl)
      dsimp only
      rcases hopen : openWith pt with e | st
      · exact h.failed (.inr rfl)
      -- every row of a store that loads has been validated
      have hvalid : ∀ c ∈ st.creds, validate c = .ok () := valid_of_openWith hopen
      refine ⟨?_, ?_, h.saved⟩
      · rintro _ ⟨⟩
        exact hvalid
      · rintro _ ⟨⟩ -
        exact inSync_readStore hread
    · rw [if_pos hloads]
      exact h.failed (.inr rfl)
  · rw [if_pos hreads]
    exact h.failed (.inr rfl)

end Opened

theorem Inv.step (h : Inv G s) (hG : G.Lawful) {a : Action} (horderly : Orderly s a)
    (hstep : step G s a = some s') : Inv G s' := by
  cases a with
  | openStore a =>
    rw [FileStore.step] at hstep
    split at hstep
    · cases hstep
      exact h
    · cases hstep
      exact h.opened hG horderly.1
  | mutate op e a =>
    rw [FileStore.step] at hstep
    split_ifs at hstep with hreset
    obtain ⟨ses, hses, rfl⟩ := Option.map_eq_some_iff.mp hstep
    refine h.mutated hG hses ?_ e (horderly.2 ses hses)
    rintro destroy rfl
    exact hreset rfl
  | factoryReset e r a =>
    obtain ⟨ses, hses, rfl⟩ := Option.map_eq_some_iff.mp hstep
    exact Inv.wiped hG e (fun hok => horderly.1 hok ses hses) a
  | close =>
    cases hstep
    exact ⟨fun _ hses => (by cases hses), fun _ hses => (by cases hses), h.saved⟩

/-- **Saved means reopenable.** From any disk, in every run in which nothing is saved between a
factory reset that failed to rotate the DEK and the next one that did (or the end of the
process), over a keychain that keeps what it reports as stored: after a save that succeeded and
before another reset, a later process with a working keychain opens the store from exactly the
plaintext that was saved. -/
theorem saved_reopens (G : Gcm) (hG : G.Lawful) (disk : Disk) (as : List Action) (s : System)
    (horderly : Machine.Along (step G) Orderly { disk } as)
    (h : Machine.run (step G) { disk } as = some s) (pt : Bytes) (hsaved : s.saved = some pt)
    (hlen : pt.length < 2 ^ 31) : Reopens G s.disk pt := by
  have hinv : Inv G s := by
    refine Machine.run_induction (I := fun _ => Inv G) ?_ ?_ horderly h
    · exact ⟨fun _ hses => (by cases hses), fun _ hses => (by cases hses),
        fun _ hpt => by cases hpt⟩
    · exact fun _ s₁ a s₂ _ ha hstep hs₁ => hs₁.step hG ha hstep
  exact hinv.saved pt hsaved hlen

/-- `random` works, and the keychain is the file with the DEK. -/
def answers : OpenAnswers where
  installId := some (Block.ofPadded 16 [1])
  dek := some (Block.ofPadded 32 [2])
  stored := ⟨true, fun _ => some (Block.ofPadded 32 [2])⟩
  save := { nonce := some (Block.ofPadded 12 [3]) }

/-- A reset whose new DEK cannot be stored: the old one is gone. -/
def resetFails : ResetAnswers where
  stat := true
  zeroed := 0
  unlinks := true
  afterDelete := fun _ => none
  drawn := (true, Block.ofPadded 32 [4])
  stored := ⟨false, fun _ => none⟩

/-- The serial is set and the daemon ends. -/
def serialSet : List Action :=
  [.mutate (.setSerial [1]) (Env.calm 0) { nonce := some (Block.ofPadded 12 [5]) }, .close]

/-- A first start, with a save. -/
theorem saved_reopens_sample :
    ∃ s pt, Machine.run (step .plain) { disk := ⟨none, fun _ => none⟩ }
      (.openStore answers :: serialSet) = some s ∧
          s.saved = some pt ∧ Reopens .plain s.disk pt := by
  obtain ⟨s, hs, hsome, hlen⟩ := Machine.exists_run_of_any (step .plain)
    { disk := ⟨none, fun _ => none⟩ } (.openStore answers :: serialSet)
    (fun s => s.saved.isSome = true ∧ (s.saved.getD []).length < 2 ^ 31) (by decide +kernel)
  obtain ⟨pt, hpt⟩ := Option.isSome_iff_exists.mp hsome
  rw [hpt] at hlen
  exact ⟨s, pt, hs, hpt, saved_reopens .plain Gcm.lawful_plain _ _ s
    (by decide +kernel) hs pt hpt hlen⟩

/-- The new DEK of a reset is not stored; the serial that is set afterwards is saved, with
success, and is lost. -/
theorem not_saved_reopens : ¬ ∀ (G : Gcm), G.Lawful → ∀ (disk : Disk) (as : List Action)
    (s : System), Machine.Along (step G) Faithful { disk } as →
      Machine.run (step G) { disk } as = some s → ∀ pt, s.saved = some pt → pt.length < 2 ^ 31 →
        Reopens G s.disk pt := by
  intro h
  obtain ⟨s, hs, hsome, hlen, hnone⟩ := Machine.exists_run_of_any (step .plain)
    { disk := ⟨none, fun _ => none⟩ } (.openStore answers ::
      .factoryReset (Env.calm 0) resetFails { nonce := none } :: serialSet)
    (fun s => s.saved.isSome = true ∧ (s.saved.getD []).length < 2 ^ 31 ∧
      readStore .plain s.disk.keychain (s.disk.file.getD []) = none) (by decide +kernel)
  obtain ⟨pt, hpt⟩ := Option.isSome_iff_exists.mp hsome
  rw [hpt] at hlen
  obtain ⟨p, st, hread, -⟩ := h .plain Gcm.lawful_plain _ _ s (by decide +kernel) hs pt hpt hlen
  cases hnone.symm.trans hread

end Swpasskey.FileStore
