import Swpasskey.Store.FileStore

/-!
# Opening an existing store

What `open_file_store` does when there is a file with anything in it: it opens exactly the files
that `Accepted` describes, under the DEK of the keychain, and it writes nothing.
-/

namespace Swpasskey.FileStore

open Store

/-- `open_file_store` from the lock file on; `locks` when the lock file can be opened and no other
daemon holds the lock. -/
def openLocked (G : Gcm) (locks : Bool) (a : OpenAnswers) (d : Disk) :
    Option Session × Option Bytes × Disk :=
  if ¬ locks then (none, none, d) else openFileStore G a d

/-- A file that is taken apart: magic, version 1, install id, nonce, and as much ciphertext as
`clen` says, whose tag verifies over the 24 bytes of the header under the DEK of the install id. -/
structure Accepted (G : Gcm) (keychain : Keychain) (f : Bytes) (p : FilePersister)
    (plaintext : Bytes) : Prop where
  magic : f.take 4 = ascii "SWPK"
  version : (f.drop 4).take 2 = [1, 0]
  installId : (f.drop 8).take 16 = p.installId.bytes
  length : ∃ clen : UInt32, (f.drop 36).take 4 = le32 clen ∧ f.length = 40 + clen.toNat + 16
  dek : keychain (hex p.installId.bytes) = some p.dek
  tag : ∃ nonce : Block 12, (f.drop 24).take 12 = nonce.bytes ∧
    G.decrypt p.dek nonce (f.take 24) (f.drop 40) = some plaintext

variable {G : Gcm} {keychain : Keychain} {f pt : Bytes} {p : FilePersister} {n off : ℕ}

/-- The bytes from an offset on, one by one. -/
theorem take_drop_eq_map (h : off + n ≤ f.length) :
    (f.drop off).take n = (List.range n).map fun i => f.getD (off + i) 0 := by
  refine List.ext_getElem ?_ fun i hi hi' => ?_
  · rw [List.length_take, List.length_drop, List.length_map, List.length_range]
    omega
  · have hlt : off + i < f.length := by
      rw [List.length_map, List.length_range] at hi'
      omega
    rw [List.getElem_take, List.getElem_drop, List.getElem_map, List.getElem_range,
      List.getD_eq_getElem _ _ hlt]

theorem toUInt8_ext {x y : UInt8} (h : ∀ i (hi : i < 8), x.toBitVec[i] = y.toBitVec[i]) : x = y :=
  UInt8.toBitVec_inj.mp (BitVec.eq_of_getElem_eq fun i hi => h i hi)

/-- The bytes of a little-endian number. -/
theorem le32_or (a b c d : UInt8) :
    le32 (a.toUInt32 ||| b.toUInt32 <<< 8 ||| c.toUInt32 <<< 16 ||| d.toUInt32 <<< 24) =
      [a, b, c, d] := by
  simp only [le32, List.cons.injEq, and_true]
  refine ⟨toUInt8_ext ?_, toUInt8_ext ?_, toUInt8_ext ?_, toUInt8_ext ?_⟩
  all_goals
    intro i hi
    simp [BitVec.getElem_setWidth]
  all_goals grind

theorem le16_or (a b : UInt8) : (a.toUInt16 ||| b.toUInt16 <<< 8).toUInt8 = a ∧
    ((a.toUInt16 ||| b.toUInt16 <<< 8) >>> 8).toUInt8 = b := by
  refine ⟨toUInt8_ext ?_, toUInt8_ext ?_⟩
  all_goals
    intro i hi
    simp [BitVec.getElem_setWidth]
  all_goals grind

theorem version_eq_iff (a b : UInt8) :
    a.toUInt16 ||| b.toUInt16 <<< 8 = kStoreVersion ↔ a = 1 ∧ b = 0 := by
  constructor
  · intro h
    obtain ⟨ha, hb⟩ := le16_or a b
    rw [h] at ha hb
    exact ⟨ha.symm, hb.symm⟩
  · rintro ⟨rfl, rfl⟩
    rfl

theorem bytes_ofPadded_of_length {l : Bytes} (h : l.length = n) :
    (Block.ofPadded n l).bytes = l := by
  rw [Block.bytes_ofPadded h.le, h, Nat.sub_self, List.replicate_zero, List.append_nil]

/-- The length field of a file. -/
def clen (f : Bytes) : UInt32 :=
  (f.getD 36 0).toUInt32 ||| (f.getD 37 0).toUInt32 <<< 8 ||| (f.getD 38 0).toUInt32 <<< 16 |||
    (f.getD 39 0).toUInt32 <<< 24

theorem le32_clen (hlen : 56 ≤ f.length) : (f.drop 36).take 4 = le32 (clen f) := by
  rw [take_drop_eq_map (by omega), clen, le32_or]
  rfl

theorem le32_injective {v w : UInt32} (h : le32 v = le32 w) : v = w := by
  simp only [le32, List.cons.injEq, and_true] at h
  obtain ⟨h0, h1, h2, h3⟩ := h
  rw [← or_le32 v, ← or_le32 w, h0, h1, h2, h3]

theorem version_iff (hlen : 56 ≤ f.length) : (f.drop 4).take 2 = [1, 0] ↔
    (f.getD 4 0).toUInt16 ||| (f.getD 5 0).toUInt16 <<< 8 = kStoreVersion := by
  rw [take_drop_eq_map (by omega), version_eq_iff]
  simp [List.range_succ]

theorem readStore_eq (G : Gcm) (keychain : Keychain) (f : Bytes) : readStore G keychain f =
    if f.length < 56 ∨ f.take 4 ≠ kMagic then none
    else if (f.getD 4 0).toUInt16 ||| (f.getD 5 0).toUInt16 <<< 8 ≠ kStoreVersion then none
    else if f.length ≠ 40 + (clen f).toNat + 16 then none
    else (keychain (hex (Block.ofPadded 16 ((f.drop 8).take 16)).bytes)).bind fun dek =>
      (G.decrypt dek (Block.ofPadded 12 ((f.drop 24).take 12)) (f.take 24) (f.drop 40)).map
        fun pt =>
        (⟨Block.ofPadded 16 ((f.drop 8).take 16), dek⟩, pt) := rfl

/-- **What is taken apart** is exactly what is accepted. -/
theorem readStore_eq_some_iff :
    readStore G keychain f = some (p, pt) ↔ Accepted G keychain f p pt := by
  have hslice : ∀ {off n}, off + n ≤ f.length →
      (Block.ofPadded n ((f.drop off).take n)).bytes = (f.drop off).take n := by
    intro off n h
    refine bytes_ofPadded_of_length ?_
    rw [List.length_take, List.length_drop]
    omega
  rw [readStore_eq]
  constructor
  · intro h
    split_ifs at h with hshort hversion hclen
    obtain ⟨hlen, hmagic⟩ := not_or.mp hshort
    have hlen : 56 ≤ f.length := not_lt.mp hlen
    obtain ⟨dek, hdek, hrest⟩ := Option.bind_eq_some_iff.mp h
    obtain ⟨pt', hdecrypt, heq⟩ := Option.map_eq_some_iff.mp hrest
    cases heq
    have hid : 8 + 16 ≤ f.length := by omega
    have hnonce : 24 + 12 ≤ f.length := by omega
    exact ⟨not_not.mp hmagic, (version_iff hlen).mpr (not_not.mp hversion), (hslice hid).symm,
      ⟨clen f, le32_clen hlen, not_not.mp hclen⟩, hdek, _, (hslice hnonce).symm, hdecrypt⟩
  · rintro ⟨hmagic, hversion, hid, ⟨c, hc, hlen⟩, hdek, nonce, hnonce, hdecrypt⟩
    have hlen56 : 56 ≤ f.length := by omega
    obtain rfl : clen f = c := le32_injective ((le32_clen hlen56).symm.trans hc)
    have hid' : Block.ofPadded 16 ((f.drop 8).take 16) = p.installId :=
      Block.ext ((hslice (by omega)).trans hid)
    have hnonce' : Block.ofPadded 12 ((f.drop 24).take 12) = nonce :=
      Block.ext ((hslice (by omega)).trans hnonce)
    have hshort : ¬ (f.length < 56 ∨ f.take 4 ≠ kMagic) :=
      not_or.mpr ⟨not_lt.mpr hlen56, not_not.mpr hmagic⟩
    rw [if_neg hshort, if_neg (not_not.mpr ((version_iff hlen56).mp hversion)),
      if_neg (not_not.mpr hlen),
      hid', hnonce', hdek, Option.bind_some, hdecrypt]
    rfl

/-- **Opening fails closed and is read-only.** With anything in the file, `open_file_store` changes
neither the file nor the keychain and saves nothing; it fails, or it returns the store that the
decrypted plaintext loads as, with the install id of the header. -/
theorem open_existing (G : Gcm) (locks : Bool) (a : OpenAnswers) (d : Disk) {f : Bytes}
    (hfile : d.file = some f) (hne : f ≠ []) :
    openLocked G locks a d = (none, none, d) ∨
      ∃ p plaintext s, Accepted G d.keychain f p plaintext ∧ openWith plaintext = .ok s ∧
        openLocked G locks a d =
          (some { store := { s with installId := p.installId }, persister := p }, none, d) := by
  have hcontent : d.file.getD [] = f := by rw [hfile, Option.getD_some]
  have hnonempty : ¬ f.isEmpty = true := by simpa using hne
  rw [openLocked, openFileStore, hcontent, if_neg hnonempty]
  split_ifs
  · -- the file is read, under the lock, and the keychain answers
    rcases hread : readStore G d.keychain f with _ | ⟨p, plaintext⟩
    · exact .inl rfl
    · dsimp only
      rcases hopen : openWith plaintext with e | s
      · exact .inl rfl
      · exact .inr ⟨p, plaintext, s, readStore_eq_some_iff.mp hread, hopen, rfl⟩
  all_goals exact .inl rfl

/-- The disk of a store that was saved empty, under the key whose bytes are all `7`. -/
def savedDisk : Disk where
  file := some (encodeFile .plain ⟨.replicate 16 1, .replicate 32 7⟩ (.replicate 12 2) [0xA0])
  keychain _ := some (.replicate 32 7)

/-- Answers that let the store be opened. -/
def openAnswers : OpenAnswers where
  installId := none
  dek := none
  stored := ⟨true, savedDisk.keychain⟩
  save := ⟨none, true, true⟩

theorem open_existing_savedDisk : (openLocked .plain true openAnswers savedDisk).1.isSome ∧
    (openLocked .plain true openAnswers savedDisk).2.2 = savedDisk := by
  refine ⟨by decide +kernel, ?_⟩
  rcases open_existing .plain true openAnswers savedDisk rfl (by decide +kernel) with
    h | ⟨p, pt, s, -, -, h⟩
  · rw [h]
  · rw [h]

end Swpasskey.FileStore
