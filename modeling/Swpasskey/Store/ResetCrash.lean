import Swpasskey.Store.Reopen

/-!
# A factory reset that is cut short

A factory reset overwrites the store's file with zeros in place, unlinks it, rotates the DEK and
saves the empty store. The process may die between any two of these, or inside one. Before the
first zero the old store is there; after the unlink there is no file, and the next start makes a
new one, whatever the keychain holds; after the save the new file is there, under the new DEK. In
between there is a file that is not a store any more: `open_file_store` refuses it, and goes on
refusing it until someone removes the file (`recoverable_iff`).
-/

namespace Swpasskey.FileStore

open Store

/-- Where a factory reset stops. A stop inside the save is before or after its rename. -/
inductive CrashPoint
  /-- The callbacks may have run; nothing on the disk has changed. -/
  | started
  /-- So many bytes of the file are overwritten. -/
  | zeroing (k : ℕ)
  | unlinked
  /-- The keychain was told to delete the DEK. -/
  | dekDeleted
  /-- The keychain was told to store the new DEK. -/
  | dekStored
  | saved
  deriving DecidableEq

/-- The store a factory reset saves: everything but the serial and the id is gone. -/
def emptied (st : Store) : Store := { st with creds := [], pin := {}, tpm := {}, u2f := none }

section

variable (G : Gcm) (ses : Session) (r : ResetAnswers) (a : SaveAnswers) (d : Disk)

/-- The disk at the moment the factory reset stops. -/
def diskAt : CrashPoint → Disk
  | .started => d
  | .zeroing k =>
    { d with file := d.file.map fun f => List.replicate (min k f.length) 0 ++ f.drop k }
  | .unlinked => { d with file := erased r d.file }
  | .dekDeleted => ⟨erased r d.file, r.afterDelete⟩
  | .dekStored => (reset ses.persister r d).2.2
  | .saved =>
    let (ok, p, d) := reset ses.persister r d
    if ok then (save G p (emptied ses.store).serialize a d).2 else d

end

/-- Everything works. -/
def Working (o : OpenAnswers) : Prop :=
  o.reads = true ∧ o.loads = true ∧ o.installId.isSome ∧ o.dek.isSome ∧ o.stored.ok = true ∧
    o.save.ok = true

/-- Nothing is left of the credentials, the PIN, the TPM seeds and the attestation key. -/
def IsEmpty (st : Store) : Prop := emptied st = st

/-- The next start, if everything works, opens the store `st` or an empty one. -/
def Recoverable (G : Gcm) (st : Store) (d : Disk) : Prop :=
  ∀ o : OpenAnswers, Working o → ∃ ses pt d', openFileStore G o d = (some ses, pt, d') ∧
    (ses.store = st ∨ IsEmpty ses.store)

variable {G : Gcm} {ses : Session} {r : ResetAnswers} {a : SaveAnswers} {d : Disk} {st : Store}

/-- Without a file the next start makes a new store, whatever the keychain holds. -/
theorem recoverable_of_nil (hfile : d.file.getD [] = []) : Recoverable G st d := by
  rintro o ⟨hreads, -, hid, hdek, hstored, hok⟩
  obtain ⟨installId, hid⟩ := Option.isSome_iff_exists.mp hid
  obtain ⟨dek, hdek⟩ := Option.isSome_iff_exists.mp hdek
  let d₁ : Disk := { d with keychain := o.stored.keychain }
  let st₁ : Store := { installId }
  rcases save_cases G ⟨installId, dek⟩ st₁.serialize o.save d₁ with ⟨hfails, -⟩ | ⟨nonce, -, hsave⟩
  · cases hfails.symm.trans hok
  · refine ⟨{ store := st₁, persister := ⟨installId, dek⟩ }, some st₁.serialize,
      { d₁ with file := some (encodeFile G ⟨installId, dek⟩ nonce st₁.serialize) }, ?_, .inr rfl⟩
    have hopen : openFileStore G o d = create G o d := by
      simp [openFileStore, hreads, hfile]
    rw [hopen, create, hid, hdek]
    dsimp only
    rw [if_neg (not_not.mpr hstored), hsave]

/-- A file that does not begin with the magic is refused. -/
theorem not_recoverable_of_magic {f : Bytes} (hfile : d.file = some f) (hne : f ≠ [])
    (hmagic : f.take 4 ≠ kMagic) : ¬ Recoverable G st d := by
  intro h
  let o : OpenAnswers := { installId := some (Block.replicate 16 0)
                           dek := some (Block.replicate 32 0)
                           stored := ⟨true, d.keychain⟩
                           save := { nonce := some (Block.replicate 12 0) } }
  obtain ⟨ses, pt, d', hopen, -⟩ := h o ⟨rfl, rfl, rfl, rfl, rfl, rfl⟩
  have hread : readStore G d.keychain f = none := by
    rw [readStore, if_pos (.inr hmagic)]
  simp [openFileStore, o, hfile, hne, hread] at hopen

/-- A file that opens is opened by a start that works. -/
theorem Reopens.recoverable {pt : Bytes} (h : Reopens G d pt) (hst : ∀ p st',
    readStore G d.keychain (d.file.getD []) = some (p, pt) → openWith pt = .ok st' →
      { st' with installId := p.installId } = st ∨ IsEmpty { st' with installId := p.installId }) :
    Recoverable G st d := by
  obtain ⟨p, st', hread, hopen, hall⟩ := h
  intro o ho
  exact ⟨_, _, _, hall o ho.1 ho.2.1, hst p st' hread hopen⟩

theorem erased_eq_none (hstat : r.stat = true) (hunlinks : r.unlinks = true) (f : Option Bytes) :
    erased r f = none := by
  simp [erased, hstat, hunlinks]

theorem reset_file (hstat : r.stat = true) (hunlinks : r.unlinks = true) (p : FilePersister) :
    (reset p r d).2.2.file = none := by
  have hfile := erased_eq_none hstat hunlinks d.file
  unfold reset
  dsimp only
  split_ifs
  · exact hfile
  · exact hfile

/-- The save of a factory reset that has rotated the DEK. -/
theorem recoverable_saved (hG : G.Lawful) (hstat : r.stat = true) (hunlinks : r.unlinks = true)
    (hfaithful : r.stored.ok = true →
      r.stored.keychain (hex ses.persister.installId.bytes) = some r.drawn.2)
    (hlen : (emptied ses.store).serialize.length < 2 ^ 31) :
    Recoverable G st (diskAt G ses r a d .saved) := by
  have hsync := inSync_reset (p := ses.persister) (d := d) hfaithful
  have hfile := reset_file hstat hunlinks (d := d) ses.persister
  unfold diskAt
  generalize reset ses.persister r d = out at hsync hfile ⊢
  obtain ⟨ok, p, d'⟩ := out
  dsimp only at hsync hfile ⊢
  have hnil : Recoverable G st d' := recoverable_of_nil (by rw [hfile]; rfl)
  split_ifs with hok
  · -- the save goes through, or there is still no file
    have hvalid : ∀ c ∈ (emptied ses.store).creds, validate c = .ok () := fun c hc => by cases hc
    rcases save_cases G p (emptied ses.store).serialize a d' with ⟨-, hout⟩ | ⟨nonce, -, hout⟩
    · rw [hout]
      exact hnil
    · rw [hout]
      refine ((hsync hok).reopens_file hG hvalid hlen).recoverable fun p' st' _ hopen => .inr ?_
      obtain ⟨hsized, hrows⟩ := allSized_of_length (hlen.trans (by decide))
      cases (openWith_serialize hsized hrows hvalid).symm.trans hopen
      rfl
  · exact hnil

/-- A file that opens is not empty. -/
theorem exists_cons_of_readStore {x : FilePersister × Bytes}
    (hread : readStore G d.keychain (d.file.getD []) = some x) : ∃ b f, d.file = some (b :: f) := by
  rcases hfile : d.file with _ | f
  · rw [hfile, Option.getD_none, readStore_nil] at hread
    cases hread
  · rcases f with _ | ⟨b, f⟩
    · rw [hfile, Option.getD_some, readStore_nil] at hread
      cases hread
    · exact ⟨b, f, rfl⟩

/-- Once a byte of the file is overwritten, no start opens it. -/
theorem not_recoverable_of_zeroed {b : UInt8} {f : Bytes} (hf : d.file = some (b :: f)) {k : ℕ}
    (hk : 0 < k) : ¬ Recoverable G st (diskAt G ses r a d (.zeroing k)) := by
  have hmin : min k (b :: f).length = min k (b :: f).length - 1 + 1 := by
    rw [List.length_cons]
    omega
  refine not_recoverable_of_magic
    (f := List.replicate (min k (b :: f).length) 0 ++ (b :: f).drop k)
    (by simp [diskAt, hf]) (by rw [hmin]; simp [List.replicate_succ]) ?_
  -- the magic does not begin with a zero
  rw [hmin, List.replicate_succ]
  intro hmagic
  cases List.head_eq_of_cons_eq hmagic

/-- **A factory reset that is cut short, exactly.** The store is open, its file is on the disk
and can be reopened, and the file system finds and unlinks it. Wherever the reset stops, whatever
the keychain and the random generator did, the next start that works opens the store as it was
before the reset or an empty one, iff the reset did not stop between the first byte it
overwrote and the unlink. -/
theorem recoverable_iff (G : Gcm) (hG : G.Lawful) (ses : Session) (r : ResetAnswers)
    (a : SaveAnswers) (d : Disk) (hstat : r.stat = true) (hunlinks : r.unlinks = true)
    (hfaithful : r.stored.ok = true →
      r.stored.keychain (hex ses.persister.installId.bytes) = some r.drawn.2)
    (hlen : (emptied ses.store).serialize.length < 2 ^ 31) (pt : Bytes)
    (hread : readStore G d.keychain (d.file.getD []) = some (ses.persister, pt)) (st : Store)
    (hopen : openWith pt = .ok st) (point : CrashPoint) :
    Recoverable G { st with installId := ses.persister.installId }
        (diskAt G ses r a d point) ↔ ∀ k, point = .zeroing k → k = 0 := by
  have hnone := erased_eq_none hstat hunlinks d.file
  have hstarted : Recoverable G { st with installId := ses.persister.installId } d := by
    refine (reopens_of hread hopen).recoverable fun p st' hread' hopen' => .inl ?_
    cases hread.symm.trans hread'
    cases hopen.symm.trans hopen'
    rfl
  cases point with
  | started => exact ⟨fun _ k hk => (by cases hk), fun _ => hstarted⟩
  | zeroing k =>
    obtain ⟨b, f, hf⟩ := exists_cons_of_readStore hread
    rcases Nat.eq_zero_or_pos k with rfl | hk
    · have hsame : diskAt G ses r a d (.zeroing 0) = d := by
        simp [diskAt]
      rw [hsame]
      exact ⟨fun _ k hk => (by cases hk; rfl), fun _ => hstarted⟩
    · exact ⟨fun h => absurd h (not_recoverable_of_zeroed hf hk), fun h => absurd (h k rfl) hk.ne'⟩
  | unlinked => exact ⟨fun _ k hk => (by cases hk), fun _ => recoverable_of_nil
    (by simp [diskAt, hnone])⟩
  | dekDeleted =>
    exact ⟨fun _ k hk => (by cases hk), fun _ => recoverable_of_nil (by simp [diskAt, hnone])⟩
  | dekStored =>
    refine ⟨fun _ k hk => (by cases hk), fun _ => recoverable_of_nil ?_⟩
    rw [diskAt, reset_file hstat hunlinks, Option.getD_none]
  | saved => exact ⟨fun _ k hk => (by cases hk),
    fun _ => recoverable_saved hG hstat hunlinks hfaithful hlen⟩

/-- An empty store in its file, for the examples. -/
def sampleSession : Session where
  store := {}
  persister := ⟨Block.replicate 16 1, Block.replicate 32 2⟩

/-- The disk of that store, with a keychain that is a single file. -/
def sampleDisk : Disk :=
  ⟨some (encodeFile .plain sampleSession.persister (Block.replicate 12 3)
    sampleSession.store.serialize),
    fun _ => some (Block.replicate 32 2)⟩

/-- A reset in which everything works. -/
def sampleReset : ResetAnswers where
  stat := true
  zeroed := 0
  unlinks := true
  afterDelete := fun _ => none
  drawn := (true, Block.replicate 32 4)
  stored := ⟨true, fun _ => some (Block.replicate 32 4)⟩

theorem sample_opens :
    readStore .plain sampleDisk.keychain (sampleDisk.file.getD []) =
        some (sampleSession.persister, sampleSession.store.serialize) ∧
      openWith sampleSession.store.serialize = .ok sampleSession.store.reopened := by
  have hlen : sampleSession.store.serialize.length < 2 ^ 31 := by decide +kernel
  obtain ⟨hsized, hrows⟩ := allSized_of_length (hlen.trans (by decide))
  exact ⟨readStore_encodeFile Gcm.lawful_plain hlen rfl,
    openWith_serialize hsized hrows fun c hc => by cases hc⟩

/-- The reset stops after the unlink. -/
theorem recoverable_unlinked :
    Recoverable .plain { sampleSession.store.reopened with installId := Block.replicate 16 1 }
      (diskAt .plain sampleSession sampleReset { nonce := none } sampleDisk .unlinked) := by
  have hlen : (emptied sampleSession.store).serialize.length < 2 ^ 31 := by decide +kernel
  exact (recoverable_iff .plain Gcm.lawful_plain sampleSession sampleReset { nonce := none }
    sampleDisk rfl rfl (fun _ => rfl) hlen _ sample_opens.1 _ sample_opens.2 .unlinked).mpr
    fun k hk => by cases hk

/-- The reset stops when it has overwritten one byte. -/
theorem not_recoverable_zeroing : ¬ ∀ (G : Gcm), G.Lawful → ∀ (ses : Session) (r : ResetAnswers)
    (a : SaveAnswers) (d : Disk), r.stat = true → r.unlinks = true →
      (r.stored.ok = true →
        r.stored.keychain (hex ses.persister.installId.bytes) = some r.drawn.2) →
      (emptied ses.store).serialize.length < 2 ^ 31 → ∀ pt,
      readStore G d.keychain (d.file.getD []) = some (ses.persister, pt) → ∀ st,
      openWith pt = .ok st → ∀ point, Recoverable G
        { st with installId := ses.persister.installId } (diskAt G ses r a d point) := by
  intro h
  have hrec := h .plain Gcm.lawful_plain sampleSession sampleReset { nonce := none } sampleDisk rfl
    rfl (fun _ => rfl) (by decide +kernel) _ sample_opens.1 _ sample_opens.2 (.zeroing 1)
  exact not_recoverable_of_magic (by rfl) (by decide +kernel) (by decide +kernel) hrec

end Swpasskey.FileStore
