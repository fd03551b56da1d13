import Swpasskey.Cbor.Canonical
import Swpasskey.Ctap.AuthDataLayout
import Swpasskey.Ctap.EntryOrder
import Swpasskey.Ctap.HmacSecret
import Swpasskey.Ctap.PinPaths

/-!
# The platform's side of PIN protocol 2

A platform gets the authenticator's key-agreement key, derives the secret of the session from
it and a key of its own, and sends its PIN commands under that secret. Its requests are read
back as what it meant (`handle_cp`, `getAssertionRequest_getAssertBody`), and when the two
parties' functions fit together (`Provider.Sound`) and nothing outside fails
(`Env.Reliable`), what it encrypts and authenticates is what the authenticator decrypts and
checks.
-/

namespace Swpasskey

open Proc Cbor Cbor.Reader

/-! ### Maps with integer keys -/

theorem intKey_encodeInt {k : ℤ} (hlow : -2 ^ 63 ≤ k) (hhigh : k < 2 ^ 63) :
    IntKey k (encodeInt k) := by
  rw [encodeInt]
  split_ifs with hsign
  · have hnat : (UInt64.ofNat k.toNat).toNat = k.toNat := Nat.mod_eq_of_lt (by omega)
    have hhead := head_encodeType 0 (UInt64.ofNat k.toNat)
    rw [hnat] at hhead
    have hkey := IntKey.nonneg (by omega) hhead
    rwa [Int.toNat_of_nonneg hsign] at hkey
  · have hnat : (UInt64.ofNat (-1 - k).toNat).toNat = (-1 - k).toNat :=
      Nat.mod_eq_of_lt (by omega)
    have hhead := head_encodeType 1 (UInt64.ofNat (-1 - k).toNat)
    rw [hnat] at hhead
    have hkey := IntKey.neg (by omega) hhead
    rwa [Int.toNat_of_nonneg (by omega), sub_sub_cancel] at hkey

/-- An entry under an integer key: its key, its encoded value, and what it changes. -/
structure IntEntry (σ : Type) where
  key : ℤ
  value : Bytes
  set : σ → σ

/-- The entry as the writer has it. -/
def IntEntry.entry {σ : Type} (e : IntEntry σ) : Entry := (encodeInt e.key, e.value)

/-- A map with integer keys, written in their order, is read entry by entry. -/
theorem reads_record_int {σ : Type} {fields : List (Field ℤ σ)} {other : Read Unit}
    (es : List (IntEntry σ)) (hsorted : es.Pairwise fun e e' => encodeInt e.key ≤ encodeInt e'.key)
    (hlen : es.length < 2 ^ 64) (hkeys : ∀ e ∈ es, -2 ^ 63 ≤ e.key ∧ e.key < 2 ^ 63)
    (h : ∀ e ∈ es, ∀ b, Reads (readField other fields e.key b) e.value (e.set b)) (b : σ) :
    Reads (record Requests.readIntKey fields other b) (encodeMap (es.map IntEntry.entry))
      (es.foldl (fun b e => e.set b) b) := by
  have hsort : (es.map IntEntry.entry).insertionSort (fun a b => a.1 ≤ b.1) =
      es.map IntEntry.entry :=
    List.Pairwise.insertionSort_eq (List.pairwise_map.mpr hsorted)
  rw [encodeMap, hsort, List.length_map, List.flatMap_map]
  refine (reads_map hlen).bind (reads_loop es (fun b e he => ?_) b)
  have hkey := intKey_encodeInt (hkeys e he).1 (hkeys e he).2
  exact (Requests.reads_readIntKey hkey).2.bind (h e he b)

/-! ### The functions of the two parties -/

/-- The functions both parties use fit together: keys of the generator agree on a secret, and
AES-CBC decrypts what it encrypted, without changing the length. -/
structure Provider.Sound (P : Provider) (keys : Set EcdhKey) : Prop where
  agrees : ∀ a ∈ keys, ∀ b ∈ keys, ∃ z, P.sharedSecretX a (P.ecdhPub b) = some z ∧
    P.sharedSecretX b (P.ecdhPub a) = some z
  inverts : P.AesInverts
  length_aes : ∀ key iv pt, pt.length % 16 = 0 → (P.aes256cbcEncrypt key iv pt).length = pt.length

section Session

variable {P : Provider} {keys : Set EcdhKey} {ka key : EcdhKey}

/-- Both ends of a key agreement derive the same secret. -/
theorem Provider.Sound.shared (h : P.Sound keys) (hka : ka ∈ keys) (hkey : key ∈ keys) :
    ∃ z, P.sharedSecretX ka (P.ecdhPub key) = some z ∧
      P.sharedWith (some key) (P.ecdhPub ka) = some (P.derived z) := by
  obtain ⟨z, hz, hz'⟩ := h.agrees ka hka key hkey
  exact ⟨z, hz, by rw [sharedWith, Option.bind_some, hz']; rfl⟩

theorem SharedSecret.length_encrypt (h : P.Sound keys) (ss : SharedSecret) (iv : Block 16)
    {pt : Bytes} (hpt : pt.length % 16 = 0) : (ss.encrypt P iv pt).length = 16 + pt.length := by
  rw [encrypt, List.length_append, Block.length_bytes, h.length_aes _ _ _ hpt]

end Session

/-! ### Requests of the platform -/

/-- What a platform may ask of the PIN. -/
inductive PinWish
  | getRetries
  | setPin (pin : Bytes)
  | changePin (old new : Bytes)
  | token (pin : Bytes) (perms : Option UInt64) (rpId : Option Bytes)
  /-- A getAssertion with the parameter of a token. -/
  | present (tok clientDataHash : Block 32) (rpId : Bytes)

/-- A wish that fits into the requests of the platform. -/
def PinWish.Fits : PinWish → Prop
  | .getRetries => True
  | .setPin pin => pin.length ≤ 64
  | .changePin _ new => new.length ≤ 64
  | .token _ _ rpId => ∀ r ∈ rpId, r.length < 2 ^ 64
  | .present _ _ rpId => rpId ≠ [] ∧ rpId.length ≤ 255

/-- What the platform brings to a wish: its key, its IVs, and the environments of the
key agreement and of the command. -/
structure PinRound where
  key : EcdhKey
  iv : Block 16
  iv' : Block 16
  env : Env
  env' : Env

namespace PinClient

variable (D : Device)

/-- `PinClient::cp`. -/
def cp (entries : List Entry) : Call := .cbor (0x06 :: encodeMap entries)

/-- The entries every command of a protocol has. -/
def header (sub : UInt64) : List Entry :=
  [(encodeInt 1, encodeUint 2), (encodeInt 2, encodeUint sub)]

/-- The request of `PinClient::handshake`. -/
def handshake : Call := cp (header 2)

/-- `PinClient::auth`. -/
def auth (key msg : Bytes) : Bytes := (D.provider.hmacSha256 key msg).bytes

/-- The entries of `PinClient::token` that depend on its arguments. -/
def tokenEntries (perms : Option UInt64) (rpId : Option Bytes) : List Entry :=
  perms.toList.map (fun p => (encodeInt 9, encodeUint p)) ++
    rpId.toList.map fun r => (encodeInt 10, encodeTstr r)

/-- A getAssertion with a pinUvAuthParam under protocol 2. -/
def getAssertBody (rpId : Bytes) (clientDataHash : Block 32) (param : Bytes) : Bytes :=
  encodeMap [(encodeInt 1, encodeTstr rpId), (encodeInt 2, encodeBstr clientDataHash.bytes),
    (encodeInt 6, encodeBstr param), (encodeInt 7, encodeUint 2)]

/-- The command of a wish, under the secret `ss`. -/
def command (ss : SharedSecret) (x : PinRound) : PinWish → Call
  | .getRetries => cp [(encodeInt 2, encodeUint 1)]
  | .setPin pin =>
    let enc := ss.encrypt D.provider x.iv (padded pin)
    cp (header 3 ++ [(encodeInt 3, encodeCoseEcdh (D.provider.ecdhPub x.key)),
      (encodeInt 4, encodeBstr (auth D ss.hmacKey.bytes enc)), (encodeInt 5, encodeBstr enc)])
  | .changePin old new =>
    let newEnc := ss.encrypt D.provider x.iv (padded new)
    let hashEnc := ss.encrypt D.provider x.iv' (leftHash D old).bytes
    cp (header 4 ++ [(encodeInt 3, encodeCoseEcdh (D.provider.ecdhPub x.key)),
      (encodeInt 4, encodeBstr (auth D ss.hmacKey.bytes (newEnc ++ hashEnc))),
      (encodeInt 5, encodeBstr newEnc), (encodeInt 6, encodeBstr hashEnc)])
  | .token pin perms rpId =>
    cp (header (if perms.isSome then 9 else 5) ++
      [(encodeInt 3, encodeCoseEcdh (D.provider.ecdhPub x.key)),
        (encodeInt 6, encodeBstr (ss.encrypt D.provider x.iv (leftHash D pin).bytes))] ++
      tokenEntries perms rpId)
  | .present tok clientDataHash rpId =>
    .cbor (0x02 :: getAssertBody rpId clientDataHash (auth D tok.bytes clientDataHash.bytes))

/-! ### What the authenticator reads -/

theorem reads_coseEcdh (pub : P256PublicKey) :
    Reads Requests.parseCoseP256 (encodeCoseEcdh pub) pub := by
  set es : List (IntEntry (Option (Block 32) × Option (Block 32))) :=
    [⟨1, encodeInt 2, id⟩, ⟨3, encodeInt (-25), id⟩, ⟨-1, encodeInt 1, id⟩,
      ⟨-2, encodeBstr pub.x.bytes, fun q => (some pub.x, q.2)⟩,
      ⟨-3, encodeBstr pub.y.bytes, fun q => (q.1, some pub.y)⟩] with hes
  have hsorted : [encodeInt 1, encodeInt 3, encodeInt (-1), encodeInt (-2), encodeInt (-3)].Pairwise
      (· ≤ ·) := by decide +kernel
  -- the algorithm is skipped, whatever it is
  have hskip : Reads skip (encodeInt (-25)) () :=
    (reads_takeHead 1 24 (by decide)).bind_nil (reads_pure ())
  have hentries : ∀ e ∈ es, ∀ b, Reads (readField skip Requests.coseFields e.key b) e.value
      (e.set b) := by
    simp only [hes, List.forall_mem_cons, List.not_mem_nil, false_imp_iff, implies_true, and_true]
    refine ⟨fun b => ?_, fun b => hskip.map fun _ => b, fun b => ?_, fun b => ?_, fun b => ?_⟩
    · exact ((reads_integer 2).bind_nil (reads_require rfl _)).map fun _ => b
    · exact ((reads_integer 1).bind_nil (reads_require rfl _)).map fun _ => b
    · exact (reads_blockOf (by decide) pub.x).map fun v => (some v, b.2)
    · exact (reads_blockOf (by decide) pub.y).map fun v => (b.1, some v)
  rw [Requests.parseCoseP256_eq]
  refine (reads_record_int es (List.pairwise_map.mp (show (es.map fun e => encodeInt e.key).Pairwise
    (· ≤ ·) from hsorted)) (show 5 < 2 ^ 64 by decide) ?_ hentries _).bind_nil (reads_pure pub)
  simp only [hes, List.forall_mem_cons, List.not_mem_nil, false_imp_iff, implies_true, and_true]
  omega

/-- Entries under some of the keys of a request, in their order. -/
def InOrder {σ : Type} (es : List (IntEntry σ)) : Prop :=
  (es.map IntEntry.key).Sublist [1, 2, 3, 4, 5, 6, 7, 9, 10]

/-- The value is read by the field of its key. -/
def ReadBy {σ : Type} (fields : List (Field ℤ σ)) (e : IntEntry σ) : Prop :=
  ∀ b, Reads (readField skip fields e.key b) e.value (e.set b)

theorem readBy_field {σ α : Type} {fields : List (Field ℤ σ)} {e : IntEntry σ} {m : Read α}
    {set : α → σ → σ} {v : α}
    (hfield : ∀ b, readField skip fields e.key b = m >>= fun v => pure (set v b))
    (h : Reads m e.value v) (hset : ∀ b, e.set b = set v b) : ReadBy fields e := fun b => by
  rw [hfield, hset]
  exact h.map fun v => set v b

theorem reads_inOrder {σ : Type} {fields : List (Field ℤ σ)} {es : List (IntEntry σ)}
    (hes : InOrder es) (h : ∀ e ∈ es, ReadBy fields e) (b : σ) :
    Reads (record Requests.readIntKey fields skip b) (encodeMap (es.map IntEntry.entry))
      (es.foldl (fun b e => e.set b) b) := by
  have hall : ([1, 2, 3, 4, 5, 6, 7, 9, 10] : List ℤ).Pairwise
      fun k k' => encodeInt k ≤ encodeInt k' := by decide +kernel
  have hlen := hes.length_le
  have hsorted : (es.map IntEntry.key).Pairwise fun k k' => encodeInt k ≤ encodeInt k' :=
    hall.sublist hes
  rw [List.length_map] at hlen
  rw [List.pairwise_map] at hsorted
  refine reads_record_int es hsorted (hlen.trans_lt (by decide)) (fun e he => ?_) h b
  have hmem := hes.subset (List.mem_map_of_mem he)
  simp only [List.mem_cons, List.not_mem_nil, or_false] at hmem
  omega

/-! ### The members of a clientPIN request -/

section Members

open Requests

/-- A member that is an unsigned integer. -/
def uintMember (key : ℤ) (set : UInt64 → ClientPinRequest → ClientPinRequest) (v : UInt64) :
    IntEntry ClientPinRequest := ⟨key, encodeUint v, set v⟩

/-- A member that is a byte string. -/
def bytesMember (key : ℤ) (set : Bytes → ClientPinRequest → ClientPinRequest) (v : Bytes) :
    IntEntry ClientPinRequest := ⟨key, encodeBstr v, set v⟩

def protocol : IntEntry ClientPinRequest :=
  uintMember 1 (fun v q => { q with protocol := some v }) 2

def sub : UInt64 → IntEntry ClientPinRequest := uintMember 2 fun v q => { q with sub := some v }

def keyAgreement (pub : P256PublicKey) : IntEntry ClientPinRequest :=
  ⟨3, encodeCoseEcdh pub, fun q => { q with keyAgreement := some pub }⟩

def pinAuth : Bytes → IntEntry ClientPinRequest :=
  bytesMember 4 fun v q => { q with pinAuth := some v }

def newPinEnc : Bytes → IntEntry ClientPinRequest :=
  bytesMember 5 fun v q => { q with newPinEnc := some v }

def pinHashEnc : Bytes → IntEntry ClientPinRequest :=
  bytesMember 6 fun v q => { q with pinHashEnc := some v }

def permissions : UInt64 → IntEntry ClientPinRequest :=
  uintMember 9 fun v q => { q with permissions := some v }

def rpId (v : Bytes) : IntEntry ClientPinRequest :=
  ⟨10, encodeTstr v, fun q => { q with rpId := some v }⟩

theorem readBy_protocol : ReadBy clientPinFields protocol :=
  readBy_field (fun _ => rfl) (reads_uint 2) fun _ => rfl

theorem readBy_sub (n : UInt64) : ReadBy clientPinFields (sub n) :=
  readBy_field (fun _ => rfl) (reads_uint n) fun _ => rfl

theorem readBy_keyAgreement (pub : P256PublicKey) : ReadBy clientPinFields (keyAgreement pub) :=
  readBy_field (fun _ => rfl) (reads_coseEcdh pub) fun _ => rfl

theorem readBy_pinAuth {v : Bytes} (hv : v.length < 2 ^ 64) : ReadBy clientPinFields (pinAuth v) :=
  readBy_field (fun _ => rfl) (reads_bstr hv) fun _ => rfl

theorem readBy_newPinEnc {v : Bytes} (hv : v.length < 2 ^ 64) :
    ReadBy clientPinFields (newPinEnc v) :=
  readBy_field (fun _ => rfl) (reads_bstr hv) fun _ => rfl

theorem readBy_pinHashEnc {v : Bytes} (hv : v.length < 2 ^ 64) :
    ReadBy clientPinFields (pinHashEnc v) :=
  readBy_field (fun _ => rfl) (reads_bstr hv) fun _ => rfl

theorem readBy_permissions (n : UInt64) : ReadBy clientPinFields (permissions n) :=
  readBy_field (fun _ => rfl) (reads_uint n) fun _ => rfl

theorem readBy_rpId {v : Bytes} (hv : v.length < 2 ^ 64) : ReadBy clientPinFields (rpId v) :=
  readBy_field (fun _ => rfl) (reads_tstr hv) fun _ => rfl

/-- A request is read as its members. -/
theorem parse_members {es : List (IntEntry ClientPinRequest)} (hes : InOrder es)
    (h : ∀ e ∈ es, ReadBy clientPinFields e) :
    parseWith parseClientPin (encodeMap (es.map IntEntry.entry)) =
      .ok (es.foldl (fun b e => e.set b) {}) := by
  rw [parseClientPin_eq]
  exact (reads_inOrder hes h {}).parseWith

/-- A command is dispatched by its members. -/
theorem handle_members (D : Device) {es : List (IntEntry ClientPinRequest)} (hes : InOrder es)
    (h : ∀ e ∈ es, ReadBy clientPinFields e) :
    PinManager.handle D (encodeMap (es.map IntEntry.entry)) =
      PinManager.dispatch D (es.foldl (fun b e => e.set b) {}) := by
  rw [PinManager.handle, parse_members hes h]
  rfl

/-- The members of the command of a wish. -/
def members (D : Device) (ss : SharedSecret) (x : PinRound) :
    PinWish → List (IntEntry ClientPinRequest)
  | .getRetries => [sub 1]
  | .setPin pin =>
    let enc := ss.encrypt D.provider x.iv (padded pin)
    [protocol, sub 3, keyAgreement (D.provider.ecdhPub x.key),
      pinAuth (auth D ss.hmacKey.bytes enc), newPinEnc enc]
  | .changePin old new =>
    let newEnc := ss.encrypt D.provider x.iv (padded new)
    let hashEnc := ss.encrypt D.provider x.iv' (leftHash D old).bytes
    [protocol, sub 4, keyAgreement (D.provider.ecdhPub x.key),
      pinAuth (auth D ss.hmacKey.bytes (newEnc ++ hashEnc)), newPinEnc newEnc, pinHashEnc hashEnc]
  | .token pin perms rp =>
    [protocol, sub (if perms.isSome then 9 else 5), keyAgreement (D.provider.ecdhPub x.key),
      pinHashEnc (ss.encrypt D.provider x.iv (leftHash D pin).bytes)] ++
      perms.toList.map permissions ++ rp.toList.map rpId
  | .present _ _ _ => []

theorem command_eq (D : Device) (ss : SharedSecret) (x : PinRound) {wish : PinWish}
    (hwish : ∀ tok clientDataHash rp, wish ≠ .present tok clientDataHash rp) :
    command D ss x wish = cp ((members D ss x wish).map IntEntry.entry) := by
  cases wish with
  | getRetries => rfl
  | setPin pin => rfl
  | changePin old new => rfl
  | token pin perms rp => cases perms <;> cases rp <;> rfl
  | present tok clientDataHash rp => exact absurd rfl (hwish _ _ _)

theorem inOrder_members (D : Device) (ss : SharedSecret) (x : PinRound) (wish : PinWish) :
    InOrder (members D ss x wish) := by
  cases wish with
  | getRetries => exact show [(2 : ℤ)].Sublist _ by decide
  | setPin pin => exact show [(1 : ℤ), 2, 3, 4, 5].Sublist _ by decide
  | changePin old new => exact show [(1 : ℤ), 2, 3, 4, 5, 6].Sublist _ by decide
  | token pin perms rp =>
    rcases perms with _ | p <;> rcases rp with _ | r
    · exact show [(1 : ℤ), 2, 3, 6].Sublist _ by decide
    · exact show [(1 : ℤ), 2, 3, 6, 10].Sublist _ by decide
    · exact show [(1 : ℤ), 2, 3, 6, 9].Sublist _ by decide
    · exact show [(1 : ℤ), 2, 3, 6, 9, 10].Sublist _ by decide
  | present tok clientDataHash rp => exact List.nil_sublist _

theorem length_auth (D : Device) (key msg : Bytes) : (auth D key msg).length = 32 :=
  Block.length_bytes _

theorem length_padded {pin : Bytes} (h : pin.length ≤ 64) : (padded pin).length = 64 := by
  rw [padded, List.length_append, List.length_replicate]
  omega

theorem length_hashEnc {D : Device} {keys : Set EcdhKey} (h : D.provider.Sound keys)
    (ss : SharedSecret) (iv : Block 16) (pin : Bytes) :
    (ss.encrypt D.provider iv (leftHash D pin).bytes).length = 32 := by
  rw [ss.length_encrypt h iv (by rw [Block.length_bytes]), Block.length_bytes]

theorem length_pinEnc {D : Device} {keys : Set EcdhKey} (h : D.provider.Sound keys)
    (ss : SharedSecret) (iv : Block 16) {pin : Bytes} (hpin : pin.length ≤ 64) :
    (ss.encrypt D.provider iv (padded pin)).length = 80 := by
  rw [ss.length_encrypt h iv (by rw [length_padded hpin]), length_padded hpin]

theorem readBy_members {D : Device} {keys : Set EcdhKey} (h : D.provider.Sound keys)
    (ss : SharedSecret) (x : PinRound) {wish : PinWish} (hfits : wish.Fits) :
    ∀ e ∈ members D ss x wish, ReadBy clientPinFields e := by
  have hauth : ∀ key msg, (auth D key msg).length < 2 ^ 64 := fun key msg => by
    rw [length_auth]
    decide
  have hhash : ∀ iv pin, (ss.encrypt D.provider iv (leftHash D pin).bytes).length < 2 ^ 64 := by
    intro iv pin
    rw [length_hashEnc h]
    decide
  have hpin : ∀ iv {pin : Bytes}, pin.length ≤ 64 →
      (ss.encrypt D.provider iv (padded pin)).length < 2 ^ 64 := by
    intro iv pin hpin
    rw [length_pinEnc h ss iv hpin]
    decide
  cases wish with
  | getRetries => simp [members, readBy_sub]
  | setPin pin =>
    simp [members, readBy_protocol, readBy_sub, readBy_keyAgreement, readBy_pinAuth (hauth _ _),
      readBy_newPinEnc (hpin _ hfits)]
  | changePin old new =>
    simp [members, readBy_protocol, readBy_sub, readBy_keyAgreement, readBy_pinAuth (hauth _ _),
      readBy_newPinEnc (hpin _ hfits), readBy_pinHashEnc (hhash _ _)]
  | token pin perms rp =>
    intro e he
    simp only [members, List.mem_append, List.mem_cons, List.not_mem_nil, or_false,
      List.mem_map] at he
    rcases he with ((rfl | rfl | rfl | rfl) | ⟨p, -, rfl⟩) | ⟨r, hr, rfl⟩
    · exact readBy_protocol
    · exact readBy_sub _
    · exact readBy_keyAgreement _
    · exact readBy_pinHashEnc (hhash _ _)
    · exact readBy_permissions p
    · exact readBy_rpId (hfits r (Option.mem_toList.mp hr))
  | present tok clientDataHash rp => simp [members]

/-- **Requests are read as they were meant.** -/
theorem handle_command {D : Device} {keys : Set EcdhKey} (h : D.provider.Sound keys)
    (ss : SharedSecret) (x : PinRound) {wish : PinWish} (hfits : wish.Fits) {body : Bytes}
    (hbody : cp ((members D ss x wish).map IntEntry.entry) = .cbor (0x06 :: body)) :
    PinManager.handle D body =
      PinManager.dispatch D ((members D ss x wish).foldl (fun b e => e.set b) {}) := by
  have hsame : encodeMap ((members D ss x wish).map IntEntry.entry) = body := by
    simpa [cp] using hbody
  exact hsame ▸ handle_members D (inOrder_members D ss x wish) (readBy_members h ss x hfits)

end Members

/-- A getAssertion of the platform is read as it was meant. -/
theorem getAssertionRequest_getAssertBody {rp : Bytes} (hne : rp ≠ []) (hlen : rp.length ≤ 255)
    (clientDataHash : Block 32) (param : Bytes) (hparam : param.length < 2 ^ 64) :
    getAssertionRequest (getAssertBody rp clientDataHash param) = .ok {
      rpId := rp
      clientDataHash
      allowList := none
      ext := {}
      options := {}
      pinUvAuthParam := some param
      pinUvAuthProtocol := some 2 } := by
  set es : List (IntEntry Requests.GetAssertionFields) :=
    [⟨1, encodeTstr rp, fun q => { q with rpId := some rp }⟩,
      ⟨2, encodeBstr clientDataHash.bytes,
        fun q => { q with clientDataHash := some clientDataHash }⟩,
      ⟨6, encodeBstr param, fun q => { q with pinUvAuthParam := some param }⟩,
      ⟨7, encodeUint 2, fun q => { q with pinUvAuthProtocol := some 2 }⟩] with hes
  have hfields : ∀ e ∈ es, ReadBy Requests.getAssertionFields e := by
    simp only [hes, List.forall_mem_cons, List.not_mem_nil, false_imp_iff, implies_true, and_true]
    refine ⟨?_, ?_, ?_, ?_⟩
    · exact readBy_field (fun _ => rfl) (reads_tstr (by omega)) fun _ => rfl
    · exact readBy_field (fun _ => rfl) (reads_blockOf (by decide) clientDataHash) fun _ => rfl
    · exact readBy_field (fun _ => rfl) (reads_bstr hparam) fun _ => rfl
    · exact readBy_field (fun _ => rfl) (reads_uint 2) fun _ => rfl
  have horder : InOrder es := show [1, 2, 6, 7].Sublist _ by decide
  have hread := (reads_inOrder horder hfields {}).bind_nil (f := Requests.getAssertionOf)
    (reads_pure _)
  rw [← Requests.parseGetAssertion_eq] at hread
  have hparse : parseWith Requests.parseGetAssertion (getAssertBody rp clientDataHash param) =
      .ok _ := hread.parseWith
  have hbounds : (rp.isEmpty || decide (rp.length > 255)) = false := by simp [hne, hlen]
  rw [getAssertionRequest, hparse]
  change (if (rp.isEmpty || decide (rp.length > 255)) = true then _ else _) = _
  rw [hbounds]
  rfl

end PinClient

end Swpasskey
