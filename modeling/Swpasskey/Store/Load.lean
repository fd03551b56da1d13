import Swpasskey.Cbor.Reading
import Swpasskey.Store.Credential

/-!
# Reading the store back

`decode_credential`, `load_locked` and `open_with`: the plaintext is read by key, whatever the
order of the entries, and unknown entries are skipped.

The writer sorts every map by its encoded keys. To read a record back, its fields are listed
once (`CredentialField`, `StoreField`): what a field is written as, and what reading it changes.
That a field reads what it was written as is one case for each field; the order of the writer is
then evaluated, on the keys alone.
-/

namespace Swpasskey

open Cbor Cbor.Reader Proc

/-- A default `store::Credential`. -/
def Credential.blank : Credential where
  rpId := []
  rpIdHash := Block.replicate 32 0
  credId := Block.replicate 32 0
  pub := ⟨Block.replicate 32 0, Block.replicate 32 0⟩

/-- The backend kind with this value. -/
def BackendKind.ofCode? (v : UInt64) : Option BackendKind :=
  if v = 0 then some .software
  else if v = 1 then some .tpm2
  else if v = 2 then some .secureEnclave
  else none

namespace Store

/-! ### The source functions -/

/-- `read_fixed`. -/
def readFixed (n : ℕ) : Read (Block n) := do
  match Block.ofBytes? n (← bstr) with
  | some b => pure b
  | none => throw .invalidCbor

/-- The value of one entry of a row. -/
def decodeField (k : Bytes) (c : Credential) : Read Credential :=
  if k = ascii "rp_id" then do return { c with rpId := ← tstr }
  else if k = ascii "rp_id_hash" then do return { c with rpIdHash := ← readFixed 32 }
  else if k = ascii "rp_name" then do return { c with rpName := ← tstr }
  else if k = ascii "user_id" then do return { c with userId := ← bstr }
  else if k = ascii "user_name" then do return { c with userName := ← tstr }
  else if k = ascii "user_display" then do return { c with userDisplay := ← tstr }
  else if k = ascii "cred_id" then do return { c with credId := ← readFixed 32 }
  else if k = ascii "backend" then do
    match BackendKind.ofCode? (← uint) with
    | some b => return { c with backend := b }
    | none => throw .invalidCbor
  else if k = ascii "handle" then do return { c with handle := ← bstr }
  else if k = ascii "priv" then do return { c with priv := ← bstr }
  else if k = ascii "pub_x" then do return { c with pub := { c.pub with x := ← readFixed 32 } }
  else if k = ascii "pub_y" then do return { c with pub := { c.pub with y := ← readFixed 32 } }
  else if k = ascii "sign_count" then do return { c with signCount := (← uint).toUInt32 }
  else if k = ascii "created" then do return { c with createdUnix := ← uint }
  else if k = ascii "last_used" then do return { c with lastUsedUnix := ← uint }
  else if k = ascii "cred_random" then do return { c with credRandom := ← bstr }
  else if k = ascii "rk" then do return { c with rk := ← boolean }
  else skip >>= fun _ => pure c

/-- `decode_credential`. -/
def decodeCredential : Read Credential :=
  map >>= fun n => loop (fun c => tstr >>= fun k => decodeField k c) n .blank

/-- The value of one entry of `pin`. -/
def loadPinField (k : Bytes) (p : PinState) : Read PinState :=
  if k = ascii "hash" then do return { p with hash := some (← readFixed 16) }
  else if k = ascii "retries" then do return { p with retries := (← uint).toUInt8 }
  else skip >>= fun _ => pure p

/-- The value of one entry of `tpm`. -/
def loadTpmField (k : Bytes) (t : TpmState) : Read TpmState :=
  if k = ascii "srk_unique_seed" then do
    return { t with srkUniqueSeed := ← readFixed 32, present := true }
  else if k = ascii "object_auth" then do return { t with objectAuth := ← readFixed 32 }
  else skip >>= fun _ => pure t

/-- The value of one entry of `u2f_attest`. -/
def loadU2fField (k : Bytes) (a : U2fAttestation) : Read U2fAttestation :=
  if k = ascii "priv" then do return { a with priv := ← bstr }
  else if k = ascii "cert_der" then do return { a with certDer := ← bstr }
  else skip >>= fun _ => pure a

/-- The next row; an invalid one fails the whole load. -/
def loadRow (out : List Credential) : Read (List Credential) := do
  let c ← decodeCredential
  match validate c with
  | .ok () => return out ++ [c]
  | .error _ => throw .other

/-- The value of one entry of the plaintext. -/
def loadField (k : Bytes) (s : Store) : Read Store :=
  if k = ascii "aaguid" then readFixed 16 >>= fun _ => pure s
  else if k = ascii "install_id" then do return { s with installId := ← readFixed 16 }
  else if k = ascii "serial" then do return { s with serial := ← tstr }
  else if k = ascii "pin" then do
    let p ← map >>= fun n => loop (fun p => tstr >>= fun k => loadPinField k p) n s.pin
    return { s with pin := p }
  else if k = ascii "tpm" then do
    let t ← map >>= fun n => loop (fun t => tstr >>= fun k => loadTpmField k t) n s.tpm
    return { s with tpm := t }
  else if k = ascii "u2f_attest" then do
    let a ← map >>= fun n => loop (fun a => tstr >>= fun k => loadU2fField k a) n ⟨[], []⟩
    return { s with u2f := some a }
  else if k = ascii "creds" then do
    let l ← array >>= fun n => loop loadRow n s.creds
    return { s with creds := l }
  else skip >>= fun _ => pure s

/-- `load_locked`, into a new store. -/
def load : Read Store := map >>= fun n => loop (fun s => tstr >>= fun k => loadField k s) n {}

/-- `open_with`: an empty plaintext is a fresh store. -/
def openWith (plaintext : Bytes) : Except Status Store :=
  if plaintext.isEmpty then .ok {} else parseWith load plaintext

/-! ### The fields of a row -/

/-- The entries of a row, in the order in which `encode_credential` lists them. -/
inductive CredentialField
  | rpId | rpIdHash | rpName | userId | userName | userDisplay | credId | backend | handle | priv
  | pubX | pubY | signCount | created | lastUsed | credRandom | rk
  deriving DecidableEq

namespace CredentialField

def all : List CredentialField :=
  [rpId, rpIdHash, rpName, userId, userName, userDisplay, credId, backend, handle, priv, pubX, pubY,
    signCount, created, lastUsed, credRandom, rk]

def key : CredentialField → Bytes
  | rpId => ascii "rp_id"
  | rpIdHash => ascii "rp_id_hash"
  | rpName => ascii "rp_name"
  | userId => ascii "user_id"
  | userName => ascii "user_name"
  | userDisplay => ascii "user_display"
  | credId => ascii "cred_id"
  | backend => ascii "backend"
  | handle => ascii "handle"
  | priv => ascii "priv"
  | pubX => ascii "pub_x"
  | pubY => ascii "pub_y"
  | signCount => ascii "sign_count"
  | created => ascii "created"
  | lastUsed => ascii "last_used"
  | credRandom => ascii "cred_random"
  | rk => ascii "rk"

/-- What a field of a row is written as. -/
def value (c : Credential) : CredentialField → Bytes
  | rpId => encodeTstr c.rpId
  | rpIdHash => encodeBstr c.rpIdHash.bytes
  | rpName => encodeTstr c.rpName
  | userId => encodeBstr c.userId
  | userName => encodeTstr c.userName
  | userDisplay => encodeTstr c.userDisplay
  | credId => encodeBstr c.credId.bytes
  | backend => encodeUint c.backend.code
  | handle => encodeBstr c.handle
  | priv => encodeBstr c.priv
  | pubX => encodeBstr c.pub.x.bytes
  | pubY => encodeBstr c.pub.y.bytes
  | signCount => encodeUint c.signCount.toUInt64
  | created => encodeUint c.createdUnix
  | lastUsed => encodeUint c.lastUsedUnix
  | credRandom => encodeBstr c.credRandom
  | rk => encodeBool c.rk

/-- The row `d` with one field of the row `c`. -/
def copy (c d : Credential) : CredentialField → Credential
  | rpId => { d with rpId := c.rpId }
  | rpIdHash => { d with rpIdHash := c.rpIdHash }
  | rpName => { d with rpName := c.rpName }
  | userId => { d with userId := c.userId }
  | userName => { d with userName := c.userName }
  | userDisplay => { d with userDisplay := c.userDisplay }
  | credId => { d with credId := c.credId }
  | backend => { d with backend := c.backend }
  | handle => { d with handle := c.handle }
  | priv => { d with priv := c.priv }
  | pubX => { d with pub := { d.pub with x := c.pub.x } }
  | pubY => { d with pub := { d.pub with y := c.pub.y } }
  | signCount => { d with signCount := c.signCount }
  | created => { d with createdUnix := c.createdUnix }
  | lastUsed => { d with lastUsedUnix := c.lastUsedUnix }
  | credRandom => { d with credRandom := c.credRandom }
  | rk => { d with rk := c.rk }

/-- The order of the writer: shorter keys first, then bytewise. -/
theorem sorted_all : all.insertionSort (fun f g => encodeTstr f.key ≤ encodeTstr g.key) =
    [rk, priv, pubX, pubY, rpId, handle, backend, created, credId, rpName, userId,
      lastUsed, userName,
      rpIdHash, signCount, credRandom, userDisplay] := by
  decide +kernel

/-- Every field is copied. -/
theorem foldl_copy (c : Credential) :
    (all.insertionSort fun f g => encodeTstr f.key ≤ encodeTstr g.key).foldl (copy c) .blank =
      c := by
  rw [sorted_all]
  simp only [List.foldl_cons, List.foldl_nil, copy]

end CredentialField

theorem encodeCredential_eq (c : Credential) : encodeCredential c =
    encodeMap (CredentialField.all.map fun f => (encodeTstr f.key, f.value c)) := rfl

/-- Every string of a row has a size of type `std::size_t`. -/
structure Sized (c : Credential) : Prop where
  rpId : c.rpId.length < 2 ^ 64
  rpName : c.rpName.length < 2 ^ 64
  userId : c.userId.length < 2 ^ 64
  userName : c.userName.length < 2 ^ 64
  userDisplay : c.userDisplay.length < 2 ^ 64
  handle : c.handle.length < 2 ^ 64
  priv : c.priv.length < 2 ^ 64
  credRandom : c.credRandom.length < 2 ^ 64

theorem reads_readFixed {n : ℕ} (b : Block n) (hn : n < 2 ^ 64) :
    Reads (readFixed n) (encodeBstr b.bytes) b := by
  refine (reads_bstr (by rwa [b.length_bytes])).bind_nil ?_
  have hsame : Block.ofBytes? n b.bytes = some b := dif_pos b.length_bytes
  rw [hsame]
  exact reads_pure b

theorem BackendKind.ofCode?_code (b : BackendKind) : BackendKind.ofCode? b.code = some b := by
  cases b <;> rfl

/-- Each field of a row is read as it was written. -/
theorem reads_decodeField {c : Credential} (h : Sized c) (d : Credential) (f : CredentialField) :
    Reads (decodeField f.key d) (f.value c) (f.copy c d) := by
  have h32 : 32 < 2 ^ 64 := by decide
  cases f with
  | rpId => exact (reads_tstr h.rpId).map fun v => { d with rpId := v }
  | rpIdHash => exact (reads_readFixed _ h32).map fun v => { d with rpIdHash := v }
  | rpName => exact (reads_tstr h.rpName).map fun v => { d with rpName := v }
  | userId => exact (reads_bstr h.userId).map fun v => { d with userId := v }
  | userName => exact (reads_tstr h.userName).map fun v => { d with userName := v }
  | userDisplay => exact (reads_tstr h.userDisplay).map fun v => { d with userDisplay := v }
  | credId => exact (reads_readFixed _ h32).map fun v => { d with credId := v }
  | backend =>
    refine (reads_uint c.backend.code).bind_nil ?_
    rw [BackendKind.ofCode?_code]
    exact reads_pure _
  | handle => exact (reads_bstr h.handle).map fun v => { d with handle := v }
  | priv => exact (reads_bstr h.priv).map fun v => { d with priv := v }
  | pubX => exact (reads_readFixed _ h32).map fun v => { d with pub := { d.pub with x := v } }
  | pubY => exact (reads_readFixed _ h32).map fun v => { d with pub := { d.pub with y := v } }
  | signCount =>
    have := (reads_uint c.signCount.toUInt64).map fun v => { d with signCount := v.toUInt32 }
    rwa [UInt32.toUInt32_toUInt64] at this
  | created => exact (reads_uint _).map fun v => { d with createdUnix := v }
  | lastUsed => exact (reads_uint _).map fun v => { d with lastUsedUnix := v }
  | credRandom => exact (reads_bstr h.credRandom).map fun v => { d with credRandom := v }
  | rk => exact (reads_boolean _).map fun v => { d with rk := v }

/-- A row is read as it was written. -/
theorem reads_decodeCredential {c : Credential} (h : Sized c) :
    Reads decodeCredential (encodeCredential c) c := by
  have hall := reads_record CredentialField.key (CredentialField.value c) (CredentialField.copy c)
    CredentialField.all (by decide)
    (fun f _ => by cases f <;> decide +kernel) (fun d f _ => reads_decodeField h d f) .blank
  rwa [CredentialField.foldl_copy] at hall

/-- The rows are read in their order, behind those that were there. -/
theorem reads_rows {l : List Credential} (hlen : l.length < 2 ^ 64)
    (hsized : ∀ c ∈ l, Sized c) (hvalid : ∀ c ∈ l, validate c = .ok ()) (out : List Credential) :
    Reads (array >>= fun n => loop loadRow n out)
      (encodeArrayHeader l.length ++ l.flatMap encodeCredential) (out ++ l) := by
  have happend : ∀ (l out : List Credential), l.foldl (fun out c => out ++ [c]) out = out ++ l := by
    intro l
    induction l with
    | nil => simp
    | cons c l ih => intro out; rw [List.foldl_cons, ih, List.append_assoc, List.singleton_append]
  refine (reads_array hlen).bind ?_
  rw [← happend]
  refine reads_loop l (fun out c hc => ?_) out
  refine (reads_decodeCredential (hsized c hc)).bind_nil ?_
  rw [hvalid c hc]
  exact reads_pure _

/-! ### The other entries -/

/-- `pin` is read over what there was; a missing hash keeps the one there is. -/
theorem reads_pin (p q : PinState) :
    Reads (map >>= fun n => loop (fun q => tstr >>= fun k => loadPinField k q) n q) (encodePin p)
      { hash := p.hash.or q.hash, retries := p.retries } := by
  have hretries : ∀ q : PinState, Reads (loadPinField (ascii "retries") q)
      (encodeUint p.retries.toUInt64) { q with retries := p.retries } := by
    intro q
    have := (reads_uint p.retries.toUInt64).map fun v => { q with retries := v.toUInt8 }
    rwa [UInt8.toUInt8_toUInt64] at this
  obtain ⟨_ | h, n⟩ := p
  · exact reads_record (fun _ => ascii "retries") (fun _ => encodeUint n.toUInt64)
      (fun q _ => { q with retries := n }) [()] (by decide) (by decide +kernel)
      (fun q _ _ => hretries q) q
  · refine reads_record_pair (ascii "hash") (ascii "retries")
      (fun q => { q with hash := some h }) _ (by decide) (by decide)
      (fun q => ?_) hretries (fun _ => rfl) q
    exact (reads_readFixed h (by decide)).map fun v => { q with hash := some v }

theorem reads_tpm (t q : TpmState) :
    Reads (map >>= fun n => loop (fun q => tstr >>= fun k => loadTpmField k q) n q)
      (encodeMap [(encodeTstr (ascii "srk_unique_seed"), encodeBstr t.srkUniqueSeed.bytes),
        (encodeTstr (ascii "object_auth"), encodeBstr t.objectAuth.bytes)])
      { t with present := true } := by
  refine reads_record_pair (ascii "srk_unique_seed") (ascii "object_auth")
    (fun q => { q with srkUniqueSeed := t.srkUniqueSeed, present := true })
    (fun q => { q with objectAuth := t.objectAuth }) (by decide) (by decide) (fun q => ?_)
    (fun q => ?_) (fun _ => rfl) q
  · exact (reads_readFixed _ (by decide)).map fun v =>
      { q with srkUniqueSeed := v, present := true }
  · exact (reads_readFixed _ (by decide)).map fun v => { q with objectAuth := v }

theorem reads_u2f {a : U2fAttestation} (hpriv : a.priv.length < 2 ^ 64)
    (hcert : a.certDer.length < 2 ^ 64) (q : U2fAttestation) :
    Reads (map >>= fun n => loop (fun q => tstr >>= fun k => loadU2fField k q) n q)
      (encodeMap [(encodeTstr (ascii "priv"), encodeBstr a.priv),
        (encodeTstr (ascii "cert_der"), encodeBstr a.certDer)]) a := by
  refine reads_record_pair (ascii "priv") (ascii "cert_der") (fun q => { q with priv := a.priv })
    (fun q => { q with certDer := a.certDer }) (by decide) (by decide) (fun q => ?_)
    (fun q => ?_) (fun _ => rfl) q
  · exact (reads_bstr hpriv).map fun v => { q with priv := v }
  · exact (reads_bstr hcert).map fun v => { q with certDer := v }

/-! ### The whole store -/

/-- The entries of the plaintext. -/
inductive StoreField
  | aaguid | installId | serial | pin | tpm | u2f | creds
  deriving DecidableEq

namespace StoreField

/-- The entries that are written with or without TPM seeds and attestation key, in the order
in which `serialize_locked` lists them. -/
def listed (hasTpm hasU2f : Bool) : List StoreField :=
  [aaguid, installId, serial, pin] ++ (if hasTpm then [tpm] else []) ++
    (if hasU2f then [u2f] else []) ++ [creds]

/-- The entries of a store. -/
def all (s : Store) : List StoreField := listed s.tpm.present s.u2f.isSome

def key : StoreField → Bytes
  | aaguid => ascii "aaguid"
  | installId => ascii "install_id"
  | serial => ascii "serial"
  | pin => ascii "pin"
  | tpm => ascii "tpm"
  | u2f => ascii "u2f_attest"
  | creds => ascii "creds"

/-- What an entry is written as. -/
def value (s : Store) : StoreField → Bytes
  | aaguid => encodeBstr kAaguid.bytes
  | installId => encodeBstr s.installId.bytes
  | serial => encodeTstr s.serial
  | pin => encodePin s.pin
  | tpm => encodeMap
      [(encodeTstr (ascii "srk_unique_seed"), encodeBstr s.tpm.srkUniqueSeed.bytes),
        (encodeTstr (ascii "object_auth"), encodeBstr s.tpm.objectAuth.bytes)]
  | u2f => s.u2f.elim [] fun a => encodeMap
      [(encodeTstr (ascii "priv"), encodeBstr a.priv),
        (encodeTstr (ascii "cert_der"), encodeBstr a.certDer)]
  | creds => encodeArrayHeader s.creds.length ++ s.creds.flatMap encodeCredential

/-- The store `t` after an entry of the store `s` is read into it. -/
def copy (s t : Store) : StoreField → Store
  | aaguid => t
  | installId => { t with installId := s.installId }
  | serial => { t with serial := s.serial }
  | pin => { t with pin := ⟨s.pin.hash.or t.pin.hash, s.pin.retries⟩ }
  | tpm => { t with tpm := { s.tpm with present := true } }
  | u2f => { t with u2f := s.u2f }
  | creds => { t with creds := t.creds ++ s.creds }

theorem length_listed : ∀ hasTpm hasU2f : Bool, (listed hasTpm hasU2f).length < 2 ^ 64 := by decide

theorem serialize_eq (s : Store) :
    s.serialize = encodeMap ((all s).map fun f => (encodeTstr f.key, f.value s)) := by
  obtain ⟨creds, pin, ⟨_ | _, seed, auth⟩, _ | a, serial, id⟩ := s <;> rfl

/-- The order of the writer. -/
theorem sorted_listed : ∀ hasTpm hasU2f : Bool,
    (listed hasTpm hasU2f).insertionSort (fun f g => encodeTstr f.key ≤ encodeTstr g.key) =
      [pin] ++ (if hasTpm then [tpm] else []) ++ [creds, aaguid, serial, installId] ++
        (if hasU2f then [u2f] else []) := by
  decide +kernel

/-- Every entry is copied, the TPM seeds only when they are present. -/
theorem foldl_copy (s : Store) :
    ((all s).insertionSort fun f g => encodeTstr f.key ≤ encodeTstr g.key).foldl (copy s) {} =
      s.reopened := by
  rw [all, sorted_listed]
  obtain ⟨creds, pin, ⟨_ | _, seed, auth⟩, _ | a, serial, id⟩ := s <;> simp [copy, reopened]

end StoreField

/-- Every string of the store has a size of type `std::size_t`. -/
structure AllSized (s : Store) : Prop where
  creds : ∀ c ∈ s.creds, Sized c
  serial : s.serial.length < 2 ^ 64
  u2f : ∀ a, s.u2f = some a → a.priv.length < 2 ^ 64 ∧ a.certDer.length < 2 ^ 64

/-- Each entry is read as it was written. -/
theorem reads_loadField {s : Store} (hsized : AllSized s) (hlen : s.creds.length < 2 ^ 64)
    (hvalid : ∀ c ∈ s.creds, validate c = .ok ()) (t : Store) {f : StoreField}
    (hf : f ∈ StoreField.all s) : Reads (loadField f.key t) (f.value s) (f.copy s t) := by
  cases f with
  | aaguid => exact (reads_readFixed kAaguid (by decide)).map fun _ => t
  | installId => exact (reads_readFixed s.installId (by decide)).map fun v =>
    { t with installId := v }
  | serial => exact (reads_tstr hsized.serial).map fun v => { t with serial := v }
  | pin => exact (reads_pin s.pin t.pin).map fun v => { t with pin := v }
  | tpm => exact (reads_tpm s.tpm t.tpm).map fun v => { t with tpm := v }
  | u2f =>
    rcases hu : s.u2f with _ | a
    · simp [StoreField.all, StoreField.listed, hu] at hf
    · obtain ⟨hpriv, hcert⟩ := hsized.u2f a hu
      have := (reads_u2f hpriv hcert ⟨[], []⟩).map fun v => { t with u2f := some v }
      rw [StoreField.value, StoreField.copy, hu]
      exact this
  | creds =>
    exact (reads_rows hlen hsized.creds hvalid t.creds).map fun v => { t with creds := v }

/-- **The round trip of the plaintext.** A store whose rows are valid is read back from its own
plaintext; the TPM seeds only when they are present. -/
theorem openWith_serialize {s : Store} (hsized : AllSized s) (hlen : s.creds.length < 2 ^ 64)
    (hvalid : ∀ c ∈ s.creds, validate c = .ok ()) : openWith s.serialize = .ok s.reopened := by
  have hload : Reads load s.serialize s.reopened := by
    have hall := reads_record StoreField.key (StoreField.value s) (StoreField.copy s)
      (StoreField.all s) (StoreField.length_listed _ _) (fun f _ => by cases f <;> decide +kernel)
      (fun t f hf => reads_loadField hsized hlen hvalid t hf) {}
    rwa [StoreField.foldl_copy, ← StoreField.serialize_eq] at hall
  have hne : s.serialize ≠ [] := List.append_ne_nil_of_left_ne_nil (encodeType_ne_nil _ _) _
  rw [openWith, if_neg (by simpa using hne), hload.parseWith]

/-- What is not written is not missed when the store is written again. -/
theorem serialize_reopened (s : Store) : s.reopened.serialize = s.serialize := by
  obtain ⟨creds, pin, ⟨_ | _, seed, auth⟩, u2f, serial, id⟩ := s <;> rfl

/-! ### A plaintext of ordinary length -/

/-- Every string of a row fits into its encoding. -/
theorem sized_of_length {c : Credential} (h : (encodeCredential c).length < 2 ^ 64) : Sized c := by
  have hfield : ∀ f : CredentialField, (f.value c).length < 2 ^ 64 := by
    intro f
    have hmem : f ∈ CredentialField.all := by cases f <;> decide
    rw [encodeCredential_eq] at h
    exact (length_le_encodeMap (List.mem_map.mpr ⟨f, hmem, rfl⟩)).trans_lt h
  constructor
  · exact (length_le_encodeTstr _).trans_lt (hfield .rpId)
  · exact (length_le_encodeTstr _).trans_lt (hfield .rpName)
  · exact (length_le_encodeBstr _).trans_lt (hfield .userId)
  · exact (length_le_encodeTstr _).trans_lt (hfield .userName)
  · exact (length_le_encodeTstr _).trans_lt (hfield .userDisplay)
  · exact (length_le_encodeBstr _).trans_lt (hfield .handle)
  · exact (length_le_encodeBstr _).trans_lt (hfield .priv)
  · exact (length_le_encodeBstr _).trans_lt (hfield .credRandom)

theorem length_le_flatMap_encodeCredential (l : List Credential) :
    l.length ≤ (l.flatMap encodeCredential).length := by
  induction l with
  | nil => exact le_rfl
  | cons c l ih =>
    have hpos : 0 < (encodeCredential c).length := by
      rw [encodeCredential_eq, encodeMap, List.length_append]
      have := List.length_pos_iff.mpr (encodeType_ne_nil 5 (UInt64.ofNat
        (CredentialField.all.map fun f => (encodeTstr f.key, f.value c)).length))
      omega
    rw [List.flatMap_cons, List.length_append, List.length_cons]
    omega

/-- Every string of the store, and the table of its rows, fits into its plaintext. -/
theorem allSized_of_length {s : Store} (h : s.serialize.length < 2 ^ 64) :
    AllSized s ∧ s.creds.length < 2 ^ 64 := by
  have hfield : ∀ f ∈ StoreField.all s, (f.value s).length < 2 ^ 64 := by
    intro f hf
    rw [StoreField.serialize_eq] at h
    exact (length_le_encodeMap (List.mem_map.mpr ⟨f, hf, rfl⟩)).trans_lt h
  have hrows : (s.creds.flatMap encodeCredential).length < 2 ^ 64 := by
    have := hfield .creds (by simp [StoreField.all, StoreField.listed])
    rw [StoreField.value, List.length_append] at this
    omega
  refine ⟨⟨fun c hc => ?_, ?_, fun a ha => ?_⟩, ?_⟩
  · exact sized_of_length ((length_le_flatMap encodeCredential hc).trans_lt hrows)
  · exact (length_le_encodeTstr _).trans_lt
      (hfield .serial (by simp [StoreField.all, StoreField.listed]))
  · have hu := hfield .u2f (by simp [StoreField.all, StoreField.listed, ha])
    rw [StoreField.value, ha] at hu
    constructor
    · refine (length_le_encodeBstr _).trans_lt (lt_of_le_of_lt ?_ hu)
      exact length_le_encodeMap (e := (encodeTstr (ascii "priv"), encodeBstr a.priv)) (by simp)
    · refine (length_le_encodeBstr _).trans_lt (lt_of_le_of_lt ?_ hu)
      exact length_le_encodeMap (e := (encodeTstr (ascii "cert_der"), encodeBstr a.certDer))
        (by simp)
  · exact (length_le_flatMap_encodeCredential s.creds).trans_lt hrows

/-! ### What is loaded is valid -/

theorem yields_loadRow {out : List Credential} (h : ∀ c ∈ out, validate c = .ok ()) :
    Yields (loadRow out) fun l => ∀ c ∈ l, validate c = .ok () := by
  refine (yields_any decodeCredential).bind fun c _ => ?_
  rcases hvalid : validate c with e | ⟨⟩
  · exact fun _ => trivial
  · refine yields_pure fun d hd => ?_
    rcases List.mem_append.mp hd with hd | hd
    · exact h d hd
    · rw [List.mem_singleton.mp hd, hvalid]

theorem yields_loadField {s : Store} (k : Bytes) (h : ∀ c ∈ s.creds, validate c = .ok ()) :
    Yields (loadField k s) fun t => ∀ c ∈ t.creds, validate c = .ok () := by
  unfold loadField
  split_ifs
  · exact (yields_any _).bind fun _ _ => yields_pure h
  · exact (yields_any _).bind fun _ _ => yields_pure h
  · exact (yields_any _).bind fun _ _ => yields_pure h
  · exact (yields_any _).bind fun _ _ => yields_pure h
  · exact (yields_any _).bind fun _ _ => yields_pure h
  · exact (yields_any _).bind fun _ _ => yields_pure h
  · have hrows : Yields (array >>= fun n => loop loadRow n s.creds) fun l =>
        ∀ c ∈ l, validate c = .ok () :=
      (yields_any array).bind fun n _ => yields_loop (fun _ => yields_loadRow) n h
    exact hrows.bind fun l hl => yields_pure hl
  · exact (yields_any _).bind fun _ _ => yields_pure h

/-- Every row that `open_with` loads is valid. -/
theorem valid_of_openWith {plaintext : Bytes} {s : Store} (h : openWith plaintext = .ok s) :
    ∀ c ∈ s.creds, validate c = .ok () := by
  have hload : Yields load fun t => ∀ c ∈ t.creds, validate c = .ok () := by
    refine (yields_any _).bind fun n _ => yields_loop (fun t ht => ?_) n (by simp)
    exact (yields_any _).bind fun k _ => yields_loadField k ht
  unfold openWith at h
  split_ifs at h
  · cases h
    simp
  · exact hload.of_parseWith h

end Store

end Swpasskey
