import Swpasskey.Cbor.Grammar
import Swpasskey.Cbor.Value
import Swpasskey.Ctap.Responses

/-!
# The layout of authenticatorData

A relying party takes authenticatorData apart by its layout: the hash of the RP ID, the flags,
the counter, then attested credential data **if** the AT flag is set, an extension map **if**
the ED flag is set, and nothing behind. Neither part says how long it is: the credential id has a
length in front, but the public key and the extensions end where their CBOR ends.
`decodeAuthData` is this reading, with the public key in its one canonical form. It gives back
whatever `build_auth_data` lays out, if the flags tell the truth about the parts
(`LaidOut.decode`).
-/

namespace Swpasskey

open Proc Cbor Cbor.Reader

/-! ### The reading of the layout -/

/-- Attested credential data, taken apart. -/
structure ParsedAttested where
  aaguid : Block 16
  credId : Bytes
  pub : P256PublicKey
  deriving DecidableEq

/-- authenticatorData, taken apart. -/
structure ParsedAuthData where
  rpIdHash : Block 32
  flags : UInt8
  signCount : UInt32
  attested : Option ParsedAttested
  /-- The extensions: their names and encoded values, in the order of the bytes. -/
  extensions : Option (List (Bytes × Bytes))
  deriving DecidableEq

/-- The next `n` bytes, as a block. -/
def takeBlock (n : ℕ) : Read (Block n) := do return Block.ofPadded n (← takeBytes (UInt64.ofNat n))

/-- The bytes of the next item. -/
def takeItem : Read Bytes := do
  let start ← gets Reader.off
  skip
  gets fun r => (r.input.take r.off).drop start

/-- An integer that is fixed. -/
def expectInt (k : ℤ) : Read Unit := do require ((← integer) = k) .invalidCbor

/-- An entry of a COSE_Key. -/
def labelled {α : Type} (label : ℤ) (m : Read α) : Read α := expectInt label >>= fun _ => m

/-- An ES256 public key as a COSE_Key, in canonical form: kty, alg, crv, x and y. -/
def readCoseEs256 : Read P256PublicKey := do
  let n ← map
  require (n = 5) .invalidCbor
  labelled 1 (expectInt 2)
  labelled 3 (expectInt (-7))
  labelled (-1) (expectInt 1)
  let x ← labelled (-2) (Requests.blockOf 32)
  let y ← labelled (-3) (Requests.blockOf 32)
  return ⟨x, y⟩

def readAttested : Read ParsedAttested := do
  let aaguid ← takeBlock 16
  let credId ← takeBytes (← takeArgument 2)
  let pub ← readCoseEs256
  return { aaguid, credId, pub }

def readExtensions : Read (List (Bytes × Bytes)) := do
  let n ← map
  loop (fun out => tstr >>= fun k => do return out ++ [(k, ← takeItem)]) n []

/-- A part that is there if its flag is set. -/
def readFlagged {α : Type} (flag : Bool) (m : Read α) : Read (Option α) :=
  if flag then do return some (← m) else return none

def readAuthData : Read ParsedAuthData := do
  let rpIdHash ← takeBlock 32
  let flags ← takeByte
  let signCount ← takeArgument 4
  let attested ← readFlagged (flags &&& kFlagAt ≠ 0) readAttested
  let extensions ← readFlagged (flags &&& kFlagEd ≠ 0) readExtensions
  return { rpIdHash, flags, signCount := signCount.toUInt32, attested, extensions }

/-- authenticatorData by its layout, with nothing left over. -/
def decodeAuthData (l : Bytes) : Option ParsedAuthData :=
  match readAuthData { input := l } with
  | (.ok p, r) => if r.off = l.length then some p else none
  | _ => none

/-! ### The parts -/

theorem reads_require {c : Bool} (h : c = true) (e : Status) : Reads (require c e) [] () := by
  subst h
  exact fun _ _ => rfl

theorem reads_takeBlock {n : ℕ} (hn : n < 2 ^ 64) (b : Block n) :
    Reads (takeBlock n) b.bytes b := by
  have hread := (reads_takeBytes (v := b.bytes) (by rwa [b.length_bytes])).map (Block.ofPadded n)
  have hsame : Block.ofPadded n b.bytes = b := by
    apply Block.ext
    rw [Block.bytes_ofPadded b.length_bytes.le, b.length_bytes, Nat.sub_self, List.replicate_zero,
      List.append_nil]
  rwa [hsame, b.length_bytes] at hread

theorem reads_takeItem {l : Bytes} (h : Reads skip l ()) : Reads takeItem l l := by
  intro before after
  have hitem : ((before ++ l ++ after).take (before.length + l.length)).drop before.length = l := by
    rw [← List.length_append, List.take_left' rfl, List.drop_left' rfl]
  rw [takeItem, bind_apply_ok (show gets Reader.off _ = (.ok before.length, _) from rfl),
    bind_apply_ok (h before after)]
  exact Prod.ext (congrArg Outcome.ok hitem) rfl

theorem reads_skip_boolean (b : Bool) : Reads skip (encodeBool b) () := by
  cases b
  · exact (reads_takeHead 7 20 (by decide)).bind_nil (reads_pure ())
  · exact (reads_takeHead 7 21 (by decide)).bind_nil (reads_pure ())

theorem reads_skip_bstr {v : Bytes} (hv : v.length < 2 ^ 64) : Reads skip (encodeBstr v) () :=
  (reads_takeHead 2 _ (by decide)).bind ((reads_takeBytes hv).map fun _ => ())

theorem reads_blockOf {n : ℕ} (hn : n < 2 ^ 64) (b : Block n) :
    Reads (Requests.blockOf n) (encodeBstr b.bytes) b := by
  refine (reads_bstr (by rwa [b.length_bytes])).bind_nil ?_
  have hsome : Block.ofBytes? n b.bytes = some b := dif_pos b.length_bytes
  rw [hsome]
  exact reads_pure b

theorem reads_expectInt (k : Int64) : Reads (expectInt k.toInt) (encodeInt k.toInt) () :=
  (reads_integer k).bind_nil (reads_require (decide_eq_true rfl) _)

theorem reads_labelled {α : Type} {m : Read α} {l : Bytes} {a : α} (label : Int64)
    (h : Reads m l a) : Reads (labelled label.toInt m) (encodeInt label.toInt ++ l) a :=
  (reads_expectInt label).bind h

/-! ### The public key -/

/-- The entries of a COSE_Key are written in the order in which they are listed. -/
theorem encodeCoseP256_eq (pub : P256PublicKey) : encodeCoseP256 pub =
    encodeType 5 5 ++ (encodeInt 1 ++ encodeInt 2 ++ (encodeInt 3 ++ encodeInt (-7) ++
      (encodeInt (-1) ++ encodeInt 1 ++ (encodeInt (-2) ++ encodeBstr pub.x.bytes ++
        (encodeInt (-3) ++ encodeBstr pub.y.bytes))))) := by
  set entries : List Entry :=
    [(encodeInt 1, encodeInt 2), (encodeInt 3, encodeInt (-7)), (encodeInt (-1), encodeInt 1),
      (encodeInt (-2), encodeBstr pub.x.bytes), (encodeInt (-3), encodeBstr pub.y.bytes)]
  have hkeys : [encodeInt 1, encodeInt 3, encodeInt (-1), encodeInt (-2), encodeInt (-3)].Pairwise
      (· ≤ ·) := by decide +kernel
  have hsorted : entries.Pairwise fun a b => a.1 ≤ b.1 :=
    List.pairwise_map.mp (show (entries.map Prod.fst).Pairwise (· ≤ ·) from hkeys)
  change encodeMap entries = _
  rw [encodeMap, hsorted.insertionSort_eq]
  simp [entries]

theorem reads_coseEs256 (pub : P256PublicKey) : Reads readCoseEs256 (encodeCoseP256 pub) pub := by
  rw [encodeCoseP256_eq]
  refine (reads_map (n := 5) (by decide)).bind ?_
  refine Reads.bind (l := []) (reads_require (by decide) _) ?_
  refine (reads_labelled 1 (reads_expectInt 2)).bind ?_
  refine (reads_labelled 3 (reads_expectInt (-7))).bind ?_
  refine (reads_labelled (-1) (reads_expectInt 1)).bind ?_
  refine (reads_labelled (-2) (reads_blockOf (by decide) pub.x)).bind ?_
  exact (reads_labelled (-3) (reads_blockOf (by decide) pub.y)).map _

/-! ### The whole -/

theorem be32_eq_argument (v : UInt32) : be32 v = argument v.toUInt64 4 := by
  have hbyte : ∀ k : UInt32, ∀ k' : UInt64, k.toNat = k'.toNat → k.toNat < 32 →
      (v >>> k).toUInt8 = (v.toUInt64 >>> k').toUInt8 := by
    intro k k' hk hlt
    refine UInt8.toNat_inj.mp ?_
    rw [UInt32.toNat_toUInt8, UInt64.toNat_toUInt8, UInt32.toNat_shiftRight,
      UInt64.toNat_shiftRight, UInt32.toNat_toUInt64, ← hk, Nat.mod_eq_of_lt hlt,
      Nat.mod_eq_of_lt (hlt.trans (by decide))]
  have hlast : v.toUInt8 = v.toUInt64.toUInt8 := UInt8.toNat_inj.mp (by simp)
  rw [be32, argument, hbyte 24 24 rfl (by decide), hbyte 16 16 rfl (by decide),
    hbyte 8 8 rfl (by decide), hlast]

theorem reads_be32 (v : UInt32) : Reads (takeArgument 4) (be32 v) v.toUInt64 := by
  have hread := reads_takeArgument (argument v.toUInt64 4)
  have hlt : v.toUInt64.toNat < 256 ^ 4 := by
    rw [UInt32.toNat_toUInt64]
    exact v.toNat_lt
  rwa [foldl_argument v.toUInt64 4 (by decide) hlt, ← be32_eq_argument] at hread

theorem reads_attested (aaguid : Block 16) (credId : Block 32) (pub : P256PublicKey) :
    Reads readAttested (buildAttestedCredentialData aaguid credId.bytes pub)
      { aaguid, credId := credId.bytes, pub } := by
  have hlength : UInt64.ofNat credId.bytes.length = 32 := by
    rw [credId.length_bytes]
    rfl
  have hread : Reads (takeBytes 32) credId.bytes credId.bytes :=
    hlength ▸ reads_takeBytes (by rw [credId.length_bytes]; decide)
  rw [buildAttestedCredentialData, hlength, List.append_assoc, List.append_assoc]
  refine (reads_takeBlock (by decide) aaguid).bind ?_
  refine (reads_takeArgument [0, 32]).bind (hread.bind ?_)
  exact (reads_coseEs256 pub).map _

/-- Extensions that can be laid out: one item under each name, in the order of the names. -/
structure ExtensionMap where
  entries : List (Bytes × Bytes)
  short : entries.length < 2 ^ 64
  names : ∀ e ∈ entries, e.1.length < 2 ^ 64
  items : ∀ e ∈ entries, Reads skip e.2 ()
  sorted : (entries.map fun e => encodeTstr e.1).Pairwise (· ≤ ·)

namespace ExtensionMap

/-- The bytes of the map. -/
def bytes (m : ExtensionMap) : Bytes := encodeMap (m.entries.map fun e => (encodeTstr e.1, e.2))

/-- One extension. -/
def single (name value : Bytes) (hname : name.length < 2 ^ 64) (hvalue : Reads skip value ()) :
    ExtensionMap where
  entries := [(name, value)]
  short := Nat.one_lt_two_pow (by decide)
  names e he := List.mem_singleton.mp he ▸ hname
  items e he := List.mem_singleton.mp he ▸ hvalue
  sorted := List.pairwise_singleton _ _

theorem reads (m : ExtensionMap) : Reads readExtensions m.bytes m.entries := by
  have hsorted : (m.entries.map fun e => (encodeTstr e.1, e.2)).Pairwise
      fun a b : Entry => a.1 ≤ b.1 := List.pairwise_map.mpr (List.pairwise_map.mp m.sorted)
  have hentry : ∀ out : List (Bytes × Bytes), ∀ e ∈ m.entries,
      Reads (tstr >>= fun k => takeItem >>= fun v => pure (out ++ [(k, v)]))
        (encodeTstr e.1 ++ e.2) (out ++ [e]) := fun out e he =>
    (reads_tstr (m.names e he)).bind ((reads_takeItem (m.items e he)).map _)
  have hloop := reads_loop m.entries hentry []
  have hfold : m.entries.foldl (fun out e => out ++ [e]) [] = m.entries := by
    simp [← List.flatMap_def]
  rw [hfold] at hloop
  rw [bytes, encodeMap, hsorted.insertionSort_eq, List.length_map, List.flatMap_map]
  exact (reads_map m.short).bind hloop

theorem bytes_ne_nil (m : ExtensionMap) : m.bytes ≠ [] :=
  List.append_ne_nil_of_left_ne_nil (encodeType_ne_nil _ _) _

/-- There are bytes if and only if there is a map. -/
theorem elim_bytes_ne_nil (m : Option ExtensionMap) :
    m.elim [] ExtensionMap.bytes ≠ [] ↔ m.isSome := by
  cases m with
  | none => simp
  | some map => simp [map.bytes_ne_nil]

end ExtensionMap

/-- The flags of authenticatorData say which parts are there, and its extensions are a map. -/
structure LaidOut (a : AuthData) (extensions : Option ExtensionMap) : Prop where
  attested : a.flags &&& kFlagAt ≠ 0 ↔ a.attested.isSome
  present : a.flags &&& kFlagEd ≠ 0 ↔ extensions.isSome
  bytes : a.extensions = extensions.elim [] ExtensionMap.bytes

/-- What the layout gives for authenticatorData. -/
def AuthData.parsed (a : AuthData) (extensions : Option ExtensionMap) : ParsedAuthData where
  rpIdHash := a.rpIdHash
  flags := a.flags
  signCount := a.signCount
  attested := a.attested.map fun (aaguid, credId, pub) => ⟨aaguid, credId.bytes, pub⟩
  extensions := extensions.map ExtensionMap.entries

theorem reads_flagged {α : Type} {m : Read α} {flag : Bool} {l : Bytes} {part : Option α}
    (hflag : flag = part.isSome) (hnone : part = none → l = [])
    (hsome : ∀ a, part = some a → Reads m l a) :
    Reads (readFlagged flag m) l part := by
  subst hflag
  cases part with
  | none =>
    rw [hnone rfl]
    exact reads_pure none
  | some a => exact (hsome a rfl).map some

namespace LaidOut

variable {a a' : AuthData} {m m' : Option ExtensionMap}

theorem reads_attested (h : LaidOut a m) :
    Reads (readFlagged (a.flags &&& kFlagAt ≠ 0) readAttested)
      (match a.attested with
        | some (aaguid, credId, pub) => buildAttestedCredentialData aaguid credId.bytes pub
        | none => []) (a.parsed m).attested := by
  refine reads_flagged ?_ (fun hnone => ?_) fun p hp => ?_
  · rw [Bool.eq_iff_iff, decide_eq_true_eq, h.attested, AuthData.parsed, Option.isSome_map]
  · rw [Option.map_eq_none_iff.mp hnone]
  · obtain ⟨⟨aaguid, credId, pub⟩, hsome, rfl⟩ := Option.map_eq_some_iff.mp hp
    rw [hsome]
    exact Swpasskey.reads_attested aaguid credId pub

theorem reads (h : LaidOut a m) : Reads readAuthData a.bytes (a.parsed m) := by
  have hextensions : Reads (readFlagged (a.flags &&& kFlagEd ≠ 0) readExtensions) a.extensions
      (a.parsed m).extensions := by
    refine reads_flagged ?_ (fun hnone => ?_) fun entries hentries => ?_
    · rw [Bool.eq_iff_iff, decide_eq_true_eq, h.present, AuthData.parsed, Option.isSome_map]
    · rw [h.bytes, Option.map_eq_none_iff.mp hnone]
      rfl
    · obtain ⟨map, rfl, rfl⟩ := Option.map_eq_some_iff.mp hentries
      rw [h.bytes]
      exact map.reads
  -- the count has 32 bits, and is read back as such
  have hparsed : a.parsed m = { a.parsed m with signCount := a.signCount.toUInt64.toUInt32 } := by
    simp [AuthData.parsed]
  rw [hparsed]
  rw [AuthData.bytes, List.append_assoc, List.append_assoc, List.append_assoc]
  refine (reads_takeBlock (by decide) a.rpIdHash).bind ((reads_takeByte a.flags).bind ?_)
  refine (reads_be32 a.signCount).bind (h.reads_attested.bind ?_)
  exact hextensions.map _

/-- **The layout is decoded**, to its last byte. -/
theorem decode (h : LaidOut a m) : decodeAuthData a.bytes = some (a.parsed m) := by
  have hread := h.reads [] []
  rw [List.nil_append, List.append_nil, List.length_nil, Nat.zero_add] at hread
  rw [decodeAuthData, hread]
  exact if_pos rfl

/-- authenticatorData that is laid out is determined by its bytes. -/
theorem bytes_inj (h : LaidOut a m) (h' : LaidOut a' m') (heq : a.bytes = a'.bytes) : a = a' := by
  have hparsed : a.parsed m = a'.parsed m' :=
    Option.some.inj (h.decode.symm.trans (heq ▸ h'.decode))
  obtain ⟨hhash, hflags, hcount, hattested, hentries⟩ := ParsedAuthData.mk.inj hparsed
  -- what the decoder gives back determines each part
  have hparts : a.attested = a'.attested := by
    refine Option.map_injective ?_ hattested
    rintro ⟨aaguid, credId, pub⟩ ⟨aaguid', credId', pub'⟩ hpart
    obtain ⟨rfl, hid, rfl⟩ := ParsedAttested.mk.inj hpart
    rw [Block.ext hid]
  have hmap : ∀ m : Option ExtensionMap, m.elim [] ExtensionMap.bytes =
      (m.map ExtensionMap.entries).elim [] fun l =>
        encodeMap (l.map fun e => (encodeTstr e.1, e.2)) := by
    rintro (_ | m)
    · rfl
    · rfl
  have hextensions : a.extensions = a'.extensions := by
    rw [h.bytes, h'.bytes, hmap, hmap, hentries]
  cases a
  cases a'
  simp_all

end LaidOut

end Swpasskey
