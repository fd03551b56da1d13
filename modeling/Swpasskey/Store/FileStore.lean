import Swpasskey.Lib.Machine
import Swpasskey.Store.Invariant

/-!
# The encrypted file

`FilePersister` and `open_file_store`: the store's plaintext is sealed with AES-256-GCM under a
key, the DEK, that the OS keychain holds under the install id of the file's header. A factory
reset rotates the DEK in steps that fail on their own: the old item is deleted, the key in
memory is overwritten, the new key is drawn, the new key is stored.

The state is the disk (the file at the path and the keychain) and the open store, if there is
one. An `Action` is a call with everything the outside answers: the random generator, the
keychain and the file system may fail at each point. `write_atomic` renames, so that a failed
save leaves the file as it was.

`saved` and `halfReset` are there for the statements only.
-/

namespace Swpasskey

open Cbor Store

namespace FileStore

def kMagic : Bytes := ascii "SWPK"
def kStoreVersion : UInt16 := 1
def kHeaderSize : ℕ := 24
def kNonceSize : ℕ := 12
def kTagSize : ℕ := 16

end FileStore

open FileStore

/-- `Provider::aes256gcm_encrypt` and `aes256gcm_decrypt`, by key, nonce, additional data and
text; the ciphertext ends in the tag. -/
structure Gcm where
  encrypt : Block 32 → Block 12 → Bytes → Bytes → Bytes
  decrypt : Block 32 → Block 12 → Bytes → Bytes → Option Bytes

/-- What is assumed of AES-GCM, for the texts whose length OpenSSL can be told in an `int`. -/
structure Gcm.Lawful (G : Gcm) : Prop where
  decrypt_encrypt : ∀ k n aad pt, pt.length < 2 ^ 31 →
    G.decrypt k n aad (G.encrypt k n aad pt) = some pt
  length_encrypt : ∀ k n aad pt, pt.length < 2 ^ 31 →
    (G.encrypt k n aad pt).length = pt.length + kTagSize

/-- A cipher that hides nothing and whose tag is half of the key, for concrete runs. -/
def Gcm.plain : Gcm where
  encrypt k _ _ pt := pt ++ k.bytes.take kTagSize
  decrypt k _ _ ct :=
    let n := ct.length - kTagSize
    if ct.drop n = k.bytes.take kTagSize then some (ct.take n) else none

theorem Gcm.lawful_plain : Gcm.plain.Lawful := by
  have hlen : ∀ k : Block 32, (k.bytes.take kTagSize).length = kTagSize := fun k => by
    simp [k.length_bytes, kTagSize]
  refine ⟨fun k n aad pt _ => ?_, fun k n aad pt _ => by simp [Gcm.plain, k.length_bytes, kTagSize]⟩
  have hsub : (pt ++ k.bytes.take kTagSize).length - kTagSize = pt.length := by
    rw [List.length_append, hlen, Nat.add_sub_cancel]
  simp only [Gcm.plain, hsub, List.drop_left, List.take_left, if_true]

/-- The items of a keychain. One that is a single file has the same for every id. -/
abbrev Keychain : Type := Bytes → Option (Block 32)

/-- What is kept between two runs of the daemon. -/
structure Disk where
  /-- `credentials.bin`. -/
  file : Option Bytes
  /-- What a `load_dek` that works returns, by the install id in hex. -/
  keychain : Keychain

/-- The members of `FilePersister`. -/
structure FilePersister where
  installId : Block 16
  dek : Block 32
  deriving DecidableEq

/-- The open store. -/
structure Session where
  store : Store
  persister : FilePersister
  /-- The last reset has dropped the old DEK and not stored a new one. -/
  halfReset : Bool := false

/-- What `random`, `aes256gcm_encrypt` and `write_atomic` answer to a save. -/
structure SaveAnswers where
  nonce : Option (Block 12)
  encrypts : Bool := true
  writes : Bool := true

/-- The save succeeds. -/
def SaveAnswers.ok (a : SaveAnswers) : Bool := a.nonce.isSome && a.encrypts && a.writes

/-- What `store_dek` reports, and the keychain after it. -/
structure StoreAnswer where
  ok : Bool
  keychain : Keychain

/-- What the outside answers to `FilePersister::reset`. -/
structure ResetAnswers where
  /-- `stat` finds the file. -/
  stat : Bool
  /-- How many bytes of the file are overwritten. -/
  zeroed : ℕ
  unlinks : Bool
  /-- The keychain after `delete_dek`. -/
  afterDelete : Keychain
  /-- What `random` reports, and what it leaves in `dek_`. -/
  drawn : Bool × Block 32
  stored : StoreAnswer

/-- What the outside answers to `open_file_store`. -/
structure OpenAnswers where
  /-- `read_file` works. -/
  reads : Bool := true
  /-- `load_dek` works. -/
  loads : Bool := true
  installId : Option (Block 16)
  dek : Option (Block 32)
  stored : StoreAnswer
  save : SaveAnswers

namespace FileStore

/-! ### The source functions -/

/-- `hex`. -/
def hex (v : Bytes) : Bytes :=
  v.flatMap fun (b : UInt8) => [b >>> 4, b &&& 15].map fun d =>
    (ascii "0123456789abcdef").getD d.toNat 0

/-- Magic, version, flags and install id: also the additional data of the cipher. -/
def header (installId : Block 16) : Bytes :=
  kMagic ++ [kStoreVersion.toUInt8, (kStoreVersion >>> 8).toUInt8, 0, 0] ++ installId.bytes

/-- The content of the file. -/
def encodeFile (G : Gcm) (p : FilePersister) (nonce : Block 12) (plaintext : Bytes) : Bytes :=
  let ct := G.encrypt p.dek nonce (header p.installId) plaintext
  header p.installId ++ nonce.bytes ++ le32 (UInt32.ofNat (ct.length - kTagSize)) ++ ct

/-- `FilePersister::save`. -/
def save (G : Gcm) (p : FilePersister) (plaintext : Bytes) (a : SaveAnswers) (d : Disk) :
    Bool × Disk :=
  match a.nonce with
  | none => (false, d)
  | some nonce =>
    if ¬ a.encrypts then (false, d)
    else if ¬ a.writes then (false, d)
    else (true, { d with file := some (encodeFile G p nonce plaintext) })

/-- What is left of the file after the zero-overwrite and the `unlink`, whose failures are not
looked at. -/
def erased (a : ResetAnswers) (file : Option Bytes) : Option Bytes :=
  if ¬ a.stat then file
  else if a.unlinks then none
  else file.map fun f => List.replicate (min a.zeroed f.length) 0 ++ f.drop a.zeroed

/-- `FilePersister::reset`: the key in memory changes also when it fails. -/
def reset (p : FilePersister) (a : ResetAnswers) (d : Disk) : Bool × FilePersister × Disk :=
  let d : Disk := ⟨erased a d.file, a.afterDelete⟩
  let p := { p with dek := a.drawn.2 }
  if ¬ a.drawn.1 then (false, p, d)
  else (a.stored.ok, p, { d with keychain := a.stored.keychain })

/-- The file is taken apart and decrypted under the keychain's key. -/
def readStore (G : Gcm) (keychain : Keychain) (f : Bytes) : Option (FilePersister × Bytes) :=
  if f.length < kHeaderSize + kNonceSize + 4 + kTagSize ∨ f.take 4 ≠ kMagic then none
  else if (f.getD 4 0).toUInt16 ||| (f.getD 5 0).toUInt16 <<< 8 ≠ kStoreVersion then none
  else
    let installId := Block.ofPadded 16 ((f.drop 8).take 16)
    let nonce := Block.ofPadded 12 ((f.drop kHeaderSize).take kNonceSize)
    let off := kHeaderSize + kNonceSize
    let clen := (f.getD off 0).toUInt32 ||| (f.getD (off + 1) 0).toUInt32 <<< 8 |||
      (f.getD (off + 2) 0).toUInt32 <<< 16 ||| (f.getD (off + 3) 0).toUInt32 <<< 24
    if f.length ≠ off + 4 + clen.toNat + kTagSize then none
    else
      (keychain (hex installId.bytes)).bind fun dek =>
        (G.decrypt dek nonce (f.take kHeaderSize) (f.drop (off + 4))).map
          fun pt => (⟨installId, dek⟩, pt)

/-- `open_file_store` without a file: a new install id and a new DEK, and the empty store is
saved. Also returns the plaintext that was saved. -/
def create (G : Gcm) (a : OpenAnswers) (d : Disk) : Option Session × Option Bytes × Disk :=
  match a.installId, a.dek with
  | some installId, some dek =>
    let d := { d with keychain := a.stored.keychain }
    if ¬ a.stored.ok then (none, none, d)
    else
      let s : Store := { installId }
      match save G ⟨installId, dek⟩ s.serialize a.save d with
      | (true, d) => (some { store := s, persister := ⟨installId, dek⟩ }, some s.serialize, d)
      | (false, d) => (none, none, d)
  | _, _ => (none, none, d)

/-- `open_file_store`, when no other daemon holds the lock. -/
def openFileStore (G : Gcm) (a : OpenAnswers) (d : Disk) : Option Session × Option Bytes × Disk :=
  if ¬ a.reads then (none, none, d)
  else if (d.file.getD []).isEmpty then create G a d
  else if ¬ a.loads then (none, none, d)
  else
    match readStore G d.keychain (d.file.getD []) with
    | none => (none, none, d)
    | some (p, plaintext) =>
      match openWith plaintext with
      | .error _ => (none, none, d)
      | .ok s => (some { store := { s with installId := p.installId }, persister := p }, none, d)

/-! ### Runs -/

/-- The disk and the open store. -/
structure System where
  disk : Disk
  session : Option Session := none
  /-- The plaintext of the last save that succeeded, unless a reset was begun since. -/
  saved : Option Bytes := none

/-- A call, with the answers of the outside. -/
inductive Action
  | openStore (a : OpenAnswers)
  | mutate (op : Op) (e : Env) (a : SaveAnswers)
  /-- `factory_reset`; its callbacks reach neither the store nor the file. -/
  | factoryReset (e : Env) (r : ResetAnswers) (a : SaveAnswers)
  /-- The daemon ends. -/
  | close

/-- What the store hands to the persister goes through `save`. -/
def persist (G : Gcm) (p : FilePersister) (a : SaveAnswers) (d : Disk) :
    Option Bytes → Option Bytes × Disk
  | none => (none, d)
  | some plaintext =>
    match save G p plaintext a d with
    | (true, d) => (some plaintext, d)
    | (false, d) => (none, d)

/-- The store in memory after a call, unless the process died in it. -/
def survivor (p : FilePersister) (halfReset : Bool) : Outcome Status Unit × World → Option Session
  | (.died, _) => none
  | (_, w) => some ⟨w.store, p, halfReset⟩

/-- A mutator, with the answers of the save. -/
def mutated (G : Gcm) (s : System) (ses : Session) (op : Op) (e : Env) (a : SaveAnswers) : System :=
  let out := op.exec { store := ses.store, env := { e with save := Stream'.const a.ok } }
  let (saved, disk) := persist G ses.persister a s.disk out.2.lastSaved
  { session := survivor ses.persister ses.halfReset out, saved := saved.or s.saved, disk }

/-- A factory reset: the persister's reset first, then the save of the empty store. -/
def wiped (G : Gcm) (s : System) (ses : Session) (e : Env) (r : ResetAnswers) (a : SaveAnswers) :
    System :=
  let (ok, p, d) := reset ses.persister r s.disk
  let out := wipe { store := ses.store
                    env := { e with
                      reset := Stream'.const (ok, true)
                      save := Stream'.const a.ok } }
  let (saved, disk) := persist G p a d out.2.lastSaved
  { session := survivor p (!ok) out, saved, disk }

/-- A factory reset is an action of its own. -/
def isReset : Op → Bool
  | .factoryReset _ => true
  | _ => false

/-- What an action does, if it is possible. -/
def step (G : Gcm) (s : System) : Action → Option System
  | .openStore a =>
    match s.session with
    | some _ => some s  -- already running
    | none =>
      let (session, saved, disk) := openFileStore G a s.disk
      some { session, disk, saved := saved.or s.saved }
  | .mutate op e a => if isReset op then none else s.session.map fun ses => mutated G s ses op e a
  | .factoryReset e r a => s.session.map fun ses => wiped G s ses e r a
  | .close => some { s with session := none }

/-! ### The file -/

section File

variable {G : Gcm} {p : FilePersister} {nonce : Block 12} {pt : Bytes}

theorem ofPadded_bytes {n : ℕ} (b : Block n) : Block.ofPadded n b.bytes = b := by
  refine Block.ext ?_
  rw [Block.bytes_ofPadded b.length_bytes.le, b.length_bytes, Nat.sub_self, List.replicate_zero,
    List.append_nil]

theorem length_header (installId : Block 16) : (header installId).length = kHeaderSize := by
  simp [header, kMagic, kHeaderSize, ascii]

theorem header_eq (installId : Block 16) :
    header installId = [0x53, 0x57, 0x50, 0x4B, 1, 0, 0, 0] ++ installId.bytes := rfl

/-- A file, by its parts. -/
def layout (installId : Block 16) (nonce : Block 12) (clen : UInt32) (ct : Bytes) : Bytes :=
  header installId ++ (nonce.bytes ++ (le32 clen ++ ct))

section Layout

variable (installId : Block 16) (nonce : Block 12) (clen : UInt32) (ct : Bytes)

theorem length_layout :
    (layout installId nonce clen ct).length = kHeaderSize + kNonceSize + 4 + ct.length := by
  rw [layout, List.length_append, List.length_append, List.length_append, length_header,
    nonce.length_bytes]
  simp only [le32, List.length_cons, List.length_nil, kHeaderSize, kNonceSize]
  omega

theorem layout_first : (layout installId nonce clen ct).take 4 = kMagic ∧
    ((layout installId nonce clen ct).getD 4 0).toUInt16 |||
      ((layout installId nonce clen ct).getD 5 0).toUInt16 <<< 8 = kStoreVersion := by
  rw [layout, header_eq]
  refine ⟨rfl, ?_⟩
  change (1 : UInt8).toUInt16 ||| (0 : UInt8).toUInt16 <<< 8 = kStoreVersion
  decide

theorem layout_installId :
    Block.ofPadded 16 (((layout installId nonce clen ct).drop 8).take 16) = installId := by
  have hdrop : (layout installId nonce clen ct).drop 8 =
      installId.bytes ++ (nonce.bytes ++ (le32 clen ++ ct)) := by
    rw [layout, header_eq]
    rfl
  rw [hdrop, List.take_left' installId.length_bytes, ofPadded_bytes]

theorem layout_header : (layout installId nonce clen ct).take kHeaderSize = header installId :=
  List.take_left' (length_header _)

theorem layout_drop : (layout installId nonce clen ct).drop kHeaderSize =
    nonce.bytes ++ (le32 clen ++ ct) := List.drop_left' (length_header _)

theorem layout_nonce :
    Block.ofPadded 12 (((layout installId nonce clen ct).drop kHeaderSize).take kNonceSize) =
      nonce := by
  have hlen : nonce.bytes.length = kNonceSize := nonce.length_bytes
  rw [layout_drop, List.take_left' hlen, ofPadded_bytes]

theorem layout_rest :
    (layout installId nonce clen ct).drop (kHeaderSize + kNonceSize) = le32 clen ++ ct := by
  have hlen : nonce.bytes.length = kNonceSize := nonce.length_bytes
  rw [← List.drop_drop, layout_drop, List.drop_left' hlen]

theorem layout_body :
    (layout installId nonce clen ct).drop (kHeaderSize + kNonceSize + 4) = ct := by
  rw [← List.drop_drop, layout_rest]
  rfl

theorem layout_clen : let f := layout installId nonce clen ct
    (f.getD (kHeaderSize + kNonceSize) 0).toUInt32 |||
      (f.getD (kHeaderSize + kNonceSize + 1) 0).toUInt32 <<< 8 |||
        (f.getD (kHeaderSize + kNonceSize + 2) 0).toUInt32 <<< 16 |||
          (f.getD (kHeaderSize + kNonceSize + 3) 0).toUInt32 <<< 24 = clen := by
  intro f
  have hget : ∀ i, f.getD (kHeaderSize + kNonceSize + i) 0 = (le32 clen ++ ct).getD i 0 := by
    intro i
    rw [← layout_rest installId nonce, List.getD_eq_getElem?_getD,
      List.getD_eq_getElem?_getD, List.getElem?_drop]
  have h0 := hget 0
  rw [Nat.add_zero] at h0
  rw [h0, hget, hget, hget]
  exact or_le32 clen

end Layout

/-- **The file is read as it was written**, under the key it was written with. -/
theorem readStore_encodeFile (hG : G.Lawful) (hpt : pt.length < 2 ^ 31)
    {keychain : Keychain} (hkey : keychain (hex p.installId.bytes) = some p.dek) :
    readStore G keychain (encodeFile G p nonce pt) = some (p, pt) := by
  have hlen := hG.length_encrypt p.dek nonce (header p.installId) pt hpt
  have hdec := hG.decrypt_encrypt p.dek nonce (header p.installId) pt hpt
  obtain ⟨ct, hct⟩ : ∃ ct, ct = G.encrypt p.dek nonce (header p.installId) pt := ⟨_, rfl⟩
  rw [← hct] at hlen hdec
  obtain ⟨clen, hclen⟩ : ∃ clen, clen = UInt32.ofNat (ct.length - kTagSize) := ⟨_, rfl⟩
  have hclenNat : clen.toNat = pt.length := by
    rw [hclen, hlen, Nat.add_sub_cancel]
    exact Nat.mod_eq_of_lt (hpt.trans (by decide))
  have hfile : encodeFile G p nonce pt = layout p.installId nonce clen ct := by
    rw [encodeFile, ← hct, ← hclen, layout, List.append_assoc, List.append_assoc]
  have hfirst := layout_first p.installId nonce clen ct
  rw [hfile, readStore, if_neg, if_neg (not_not.mpr hfirst.2)]
  · dsimp only
    rw [layout_clen, layout_installId, layout_nonce, layout_header, layout_body, hkey, if_neg]
    · rw [Option.bind_some, hdec]
      rfl
    · rw [length_layout, hclenNat, hlen]
      omega
  · rw [length_layout, hlen]
    rintro (hshort | hmagic)
    · omega
    · exact hmagic hfirst.1

end File

end FileStore

end Swpasskey
