import Swpasskey.Cbor.Rearrange
import Swpasskey.Ctap.RequestMaps

/-!
# The order of entries, and unknown keys

What may be done to each map of a request without changing what it says: its entries
permuted, entries with unknown keys inserted, and the same again inside the values that are
maps, or arrays of maps. Every parser returns the same request before and after
(`parse_rearranged`).
-/

namespace Swpasskey.Requests

open Proc Cbor Cbor.Reader

/-! ### What may be done to a request -/

/-- What `Reader::skip` accepts as a whole. -/
def Skipped (l : Bytes) : Prop := skip { input := l } = (.ok (), { input := l, off := l.length })

/-- A map whose keys are text; an unknown entry may have any value. -/
def textRules (known : List (Bytes × (Bytes → Bytes → Prop))) : MapRules Bytes where
  Key := TextKey
  slot := id
  known
  inserted := Skipped

/-- A map whose keys are signed 64-bit integers. -/
def intRules (known : List (ℤ × (Bytes → Bytes → Prop))) : MapRules ℤ where
  Key := IntKey
  slot := id
  known
  inserted := Skipped

def descriptorRules : MapRules Bytes := textRules [(ascii "type", Same), (ascii "id", Same)]

def rpRules : MapRules Bytes := textRules [(ascii "id", Same), (ascii "name", Same)]

def userRules : MapRules Bytes :=
  textRules [(ascii "id", Same), (ascii "name", Same), (ascii "displayName", Same)]

/-- An unknown option is a boolean, too. -/
def optionsRules : MapRules Bytes :=
  { textRules [(ascii "rk", Same), (ascii "up", Same), (ascii "uv", Same)] with
    inserted := fun l => ∃ b, l = encodeBool b }

def coseRules : MapRules ℤ := intRules [(-2, Same), (-3, Same), (1, Same), (-1, Same)]

def paramRules : MapRules Bytes := textRules [(ascii "type", Same), (ascii "alg", Same)]

def hmacSecretRules : MapRules ℤ :=
  intRules [(1, Rearranged coseRules), (2, Same), (3, Same), (4, Same)]

/-- Under `hmac-secret` there is a map, or a value that stays as it is. -/
def HmacRearranged (l l' : Bytes) : Prop :=
  Rearranged hmacSecretRules l l' ∨ Same l l' ∧ majorType l ≠ 5

/-- The two names of the one extension count as one key. -/
def extensionsRules : MapRules Bytes :=
  { textRules [(ascii "credProtect", Same), (ascii "hmac-secret", HmacRearranged),
      (ascii "hmac-create-secret", HmacRearranged)] with
    slot := fun k => if k = ascii "hmac-create-secret" then ascii "hmac-secret" else k }

def makeCredentialRules : MapRules ℤ :=
  intRules [(0x01, Same), (0x02, Rearranged rpRules), (0x03, Rearranged userRules),
    (0x04, Elementwise (Rearranged paramRules)), (0x05, Elementwise (Rearranged descriptorRules)),
    (0x06, Rearranged extensionsRules), (0x07, Rearranged optionsRules), (0x08, Same), (0x09, Same),
    (0x0A, Same)]

def getAssertionRules : MapRules ℤ :=
  intRules [(0x01, Same), (0x02, Same), (0x03, Elementwise (Rearranged descriptorRules)),
    (0x04, Rearranged extensionsRules), (0x05, Rearranged optionsRules), (0x06, Same), (0x07, Same)]

def clientPinRules : MapRules ℤ :=
  intRules [(0x01, Same), (0x02, Same), (0x03, Rearranged coseRules), (0x04, Same), (0x05, Same),
    (0x06, Same), (0x09, Same), (0x0A, Same)]

/-! ### Keys and values -/

theorem reads_readIntKey {k : ℤ} {l : Bytes} (h : IntKey k l) : l ≠ [] ∧ Reads readIntKey l k := by
  have hmajor : majorType l = 0 ∨ majorType l = 1 := by
    cases h with
    | nonneg hn hhead => exact .inl (hhead.majorType_eq (by decide))
    | neg hn hhead => exact .inr (hhead.majorType_eq (by decide))
  rw [readIntKey, peekMajor_orFail]
  refine ⟨h.ne_nil, reads_peek h.ne_nil ?_⟩
  rw [decide_eq_true hmajor]
  exact reads_intKey h

theorem respects_bstr : Respects bstr Same := respects_same takes_bstr

theorem respects_tstr : Respects tstr Same := respects_same takes_tstr

theorem respects_uint : Respects uint Same := respects_same takes_uint

theorem respects_integer : Respects integer Same := respects_same takes_integer

theorem respects_boolean : Respects boolean Same :=
  respects_same (takes_boolean.mono fun b _ h => h ▸ wellFormed_boolean b)

theorem respects_skip : Respects skip Same := respects_same takes_skip

theorem respects_blockOf (n : ℕ) : Respects (blockOf n) Same := by
  refine respects_bstr.bind fun l => ?_
  split
  · exact takes_pure rfl
  · exact takes_throw _

theorem reads_skipped {l : Bytes} (h : Skipped l) : Reads skip l () := by
  obtain ⟨l', -, hreads, hpre, heq⟩ := takes_skip _ _ _ h
  have hlen : l.length = l'.length := by simpa using congrArg Reader.off heq
  rw [List.drop_zero] at hpre
  rwa [hpre.eq_of_length hlen.symm] at hreads

/-! ### Entities -/

theorem respects_parseDescriptor : Respects parseDescriptor (Rearranged descriptorRules) := by
  rw [parseDescriptor_eq]
  have hfields : Follows descriptorFields descriptorRules.known :=
    .cons ⟨rfl, respects_tstr⟩ (.cons ⟨rfl, respects_bstr⟩ .nil)
  refine (respects_record (fun _ _ => reads_textKey) hfields respects_skip (fun _ => reads_skipped)
    ?_ {}).bind fun d => (takes_require _ _).bind ?_
  · simp [descriptorFields, Field.Commutes]
  · rintro _ _ rfl
    exact takes_pure rfl

theorem respects_parseDescriptorList :
    Respects parseDescriptorList (Elementwise (Rearranged descriptorRules)) :=
  respects_array respects_parseDescriptor (fun out d => out ++ [d]) []

theorem takes_withId {α : Type} (q : α × Bool) : Takes (withId q) fun _ l => l = [] := by
  refine (takes_require _ _).bind ?_
  rintro _ _ rfl
  exact takes_pure rfl

theorem respects_parseRp : Respects parseRp (Rearranged rpRules) := by
  rw [parseRp_eq]
  have hfields : Follows rpFields rpRules.known :=
    .cons ⟨rfl, respects_tstr⟩ (.cons ⟨rfl, respects_tstr⟩ .nil)
  refine (respects_record (fun _ _ => reads_textKey) hfields respects_skip (fun _ => reads_skipped)
    ?_ _).bind takes_withId
  simp [rpFields, Field.Commutes]

theorem respects_parseUser : Respects parseUser (Rearranged userRules) := by
  rw [parseUser_eq]
  have hfields : Follows userFields userRules.known :=
    .cons ⟨rfl, respects_bstr⟩ (.cons ⟨rfl, respects_tstr⟩ (.cons ⟨rfl, respects_tstr⟩ .nil))
  refine (respects_record (fun _ _ => reads_textKey) hfields respects_skip (fun _ => reads_skipped)
    ?_ _).bind takes_withId
  simp [userFields, Field.Commutes]

theorem respects_parseOptions : Respects parseOptions (Rearranged optionsRules) := by
  rw [parseOptions_eq]
  have hfields : Follows optionsFields optionsRules.known :=
    .cons ⟨rfl, respects_boolean⟩ (.cons ⟨rfl, respects_boolean⟩
      (.cons ⟨rfl, respects_boolean⟩ .nil))
  refine respects_record (fun _ _ => reads_textKey) hfields (respects_boolean.map _) ?_ ?_ _
  · rintro _ ⟨b, rfl⟩
    exact (reads_boolean b).map _
  · simp [optionsFields, Field.Commutes]

/-! ### Keys and algorithms -/

theorem respects_parseCoseP256 : Respects parseCoseP256 (Rearranged coseRules) := by
  rw [parseCoseP256_eq]
  have hexpected (k : ℤ) :
      Respects (integer >>= fun v => require (v = k) .invalidParameter) Same :=
    respects_integer.bind fun _ => takes_require _ _
  have hfields : Follows coseFields coseRules.known :=
    .cons ⟨rfl, respects_blockOf 32⟩ (.cons ⟨rfl, respects_blockOf 32⟩
      (.cons ⟨rfl, hexpected 2⟩ (.cons ⟨rfl, hexpected 1⟩ .nil)))
  refine (respects_record (fun _ _ => reads_readIntKey) hfields respects_skip
    (fun _ => reads_skipped)
    ?_ _).bind fun q => ?_
  · simp [coseFields, Field.Commutes]
  · unfold coseOf
    split
    · exact takes_pure rfl
    · exact takes_throw _

theorem respects_parsePubKeyCredParamsHasEs256 :
    Respects parsePubKeyCredParamsHasEs256 (Elementwise (Rearranged paramRules)) := by
  have hparam : Respects parsePubKeyCredParam (Rearranged paramRules) := by
    rw [parsePubKeyCredParam_eq]
    have hfields : Follows paramFields paramRules.known :=
      .cons ⟨rfl, respects_tstr⟩ (.cons ⟨rfl, respects_integer⟩ .nil)
    refine (respects_record (fun _ _ => reads_textKey) hfields respects_skip
      (fun _ => reads_skipped)
      ?_ _).bind fun q => (takes_require _ _).bind ?_
    · simp [paramFields, Field.Commutes]
    · rintro _ _ rfl
      split
      · exact takes_pure rfl
      · exact takes_throw _
  exact respects_array hparam (fun found p => found || (p.1 = ascii "public-key" && p.2 = -7)) false

/-! ### Extensions -/

/-- What stands under `hmac-secret` keeps its major type. -/
theorem HmacRearranged.majorType {l l' : Bytes} (h : HmacRearranged l l') :
    l ≠ [] ∧ l' ≠ [] ∧ majorType l' = majorType l := by
  rcases h with hmap | ⟨⟨hitem, rfl⟩, -⟩
  · exact ⟨hmap.ne_nil.1, hmap.ne_nil.2, hmap.majorType.2.trans hmap.majorType.1.symm⟩
  · exact ⟨hitem.ne_nil, hitem.ne_nil, rfl⟩

theorem respects_hmacExtension : Respects HmacExtension.read HmacRearranged := by
  have hfields : Follows hmacSecretFields hmacSecretRules.known :=
    .cons ⟨rfl, respects_parseCoseP256⟩ (.cons ⟨rfl, respects_bstr⟩
      (.cons ⟨rfl, respects_bstr⟩ (.cons ⟨rfl, respects_uint⟩ .nil)))
  have hrecord : Respects (record readIntKey hmacSecretFields skip {})
      (Rearranged hmacSecretRules) := by
    refine respects_record (fun _ _ => reads_readIntKey) hfields respects_skip
      (fun _ => reads_skipped) ?_ _
    simp [hmacSecretFields, Field.Commutes]
  have hsame : ∀ {l l' : Bytes} {major : UInt8}, major ≠ 5 →
      HmacRearranged l l' ∧ majorType l = major →
      Same l l' := by
    rintro l l' _ hne ⟨hmap | ⟨hsame, -⟩, rfl⟩
    · exact absurd hmap.majorType.1 hne
    · exact hsame
  refine Respects.peek (fun l l' => HmacRearranged.majorType) fun major => ?_
  -- only a map is read entry by entry; a boolean or anything else must be the same
  by_cases h7 : major = 7
  · rw [if_pos h7]
    exact (respects_boolean.map _).weaken fun l l' => hsame (h7 ▸ by decide)
  rw [if_neg h7]
  by_cases h5 : major = 5
  · rw [if_pos h5]
    refine (hrecord.map _).weaken ?_
    rintro l l' ⟨hmap | ⟨-, hne⟩, hmajor⟩
    · exact hmap
    · exact absurd (hmajor.trans h5) hne
  rw [if_neg h5]
  exact (respects_skip.map _).weaken fun l l' => hsame h5

/-- An `hmac-secret` input leaves `credProtect` alone. -/
theorem HmacExtension.set_credProtect (v : HmacExtension) (w : Option UInt64) (e : ExtensionsIn) :
    v.set { e with credProtect := w } = { v.set e with credProtect := w } := by
  cases v <;> rfl

theorem respects_parseExtensions : Respects parseExtensions (Rearranged extensionsRules) := by
  rw [parseExtensions_eq]
  have hfields : Follows extensionsFields extensionsRules.known :=
    .cons ⟨rfl, respects_uint⟩ (.cons ⟨rfl, respects_hmacExtension⟩
      (.cons ⟨rfl, respects_hmacExtension⟩ .nil))
  refine respects_record (fun _ _ => reads_textKey) hfields respects_skip
    (fun _ => reads_skipped) ?_ _
  have hcomm (k : Bytes) : Field.Commutes extensionsRules.slot
      { key := ascii "credProtect", value := uint,
        set := fun v e => { e with credProtect := some v } }
      { key := k, value := HmacExtension.read, set := HmacExtension.set } :=
    fun _ v w e => (w.set_credProtect (some v) e).symm
  have hone : extensionsRules.slot (ascii "hmac-secret") =
      extensionsRules.slot (ascii "hmac-create-secret") := by decide
  exact .cons (by simp [hcomm]) (.cons (by simp [Field.Commutes, hone]) (.cons (by simp) .nil))

/-! ### Requests -/

theorem respects_parseMakeCredential :
    Respects parseMakeCredential (Rearranged makeCredentialRules) := by
  rw [parseMakeCredential_eq]
  have hfields : Follows makeCredentialFields makeCredentialRules.known :=
    .cons ⟨rfl, respects_blockOf 32⟩ <| .cons ⟨rfl, respects_parseRp⟩ <|
      .cons ⟨rfl, respects_parseUser⟩ <| .cons ⟨rfl, respects_parsePubKeyCredParamsHasEs256⟩ <|
      .cons ⟨rfl, respects_parseDescriptorList⟩ <| .cons ⟨rfl, respects_parseExtensions⟩ <|
      .cons ⟨rfl, respects_parseOptions⟩ <| .cons ⟨rfl, respects_bstr⟩ <|
      .cons ⟨rfl, respects_uint⟩ <| .cons ⟨rfl, respects_boolean⟩ .nil
  refine (respects_record (fun _ _ => reads_readIntKey) hfields respects_skip
    (fun _ => reads_skipped)
    ?_ _).bind fun q => ?_
  · simp [makeCredentialFields, Field.Commutes]
  · unfold makeCredentialOf
    split
    · exact takes_pure rfl
    · exact takes_throw _

theorem respects_parseGetAssertion : Respects parseGetAssertion (Rearranged getAssertionRules) := by
  rw [parseGetAssertion_eq]
  have hfields : Follows getAssertionFields getAssertionRules.known :=
    .cons ⟨rfl, respects_tstr⟩ <| .cons ⟨rfl, respects_blockOf 32⟩ <|
      .cons ⟨rfl, respects_parseDescriptorList⟩ <| .cons ⟨rfl, respects_parseExtensions⟩ <|
      .cons ⟨rfl, respects_parseOptions⟩ <| .cons ⟨rfl, respects_bstr⟩ <|
      .cons ⟨rfl, respects_uint⟩ .nil
  refine (respects_record (fun _ _ => reads_readIntKey) hfields respects_skip
    (fun _ => reads_skipped)
    ?_ _).bind fun q => ?_
  · simp [getAssertionFields, Field.Commutes]
  · unfold getAssertionOf
    split
    · exact takes_pure rfl
    · exact takes_throw _

theorem respects_parseClientPin : Respects parseClientPin (Rearranged clientPinRules) := by
  rw [parseClientPin_eq]
  have hfields : Follows clientPinFields clientPinRules.known :=
    .cons ⟨rfl, respects_uint⟩ <| .cons ⟨rfl, respects_uint⟩ <|
      .cons ⟨rfl, respects_parseCoseP256⟩ <| .cons ⟨rfl, respects_bstr⟩ <|
      .cons ⟨rfl, respects_bstr⟩ <| .cons ⟨rfl, respects_bstr⟩ <| .cons ⟨rfl, respects_uint⟩ <|
      .cons ⟨rfl, respects_tstr⟩ .nil
  refine respects_record (fun _ _ => reads_readIntKey) hfields respects_skip
    (fun _ => reads_skipped) ?_ _
  simp [clientPinFields, Field.Commutes]

/-- **Order and unknown keys.** A request that parses parses to the same after its maps have been
rearranged, whatever follows it. -/
theorem parse_rearranged (l l' tail tail' : Bytes) :
    (Rearranged makeCredentialRules l l' → ∀ q, parseWith parseMakeCredential (l ++ tail) = .ok q →
      parseWith parseMakeCredential (l' ++ tail') = .ok q) ∧
    (Rearranged getAssertionRules l l' → ∀ q, parseWith parseGetAssertion (l ++ tail) = .ok q →
      parseWith parseGetAssertion (l' ++ tail') = .ok q) ∧
    (Rearranged clientPinRules l l' → ∀ q, parseWith parseClientPin (l ++ tail) = .ok q →
      parseWith parseClientPin (l' ++ tail') = .ok q) :=
  ⟨fun h _ => respects_parseMakeCredential.parseWith h tail tail',
    fun h _ => respects_parseGetAssertion.parseWith h tail tail',
    fun h _ => respects_parseClientPin.parseWith h tail tail'⟩

/-! ### An example -/

/-- A clientPIN request: the protocol and the subcommand. -/
def sampleEntries : List (MapEntry ℤ) :=
  [{ key := 1, keyBytes := [0x01], before := [0x01], after := [0x01] },
    { key := 2, keyBytes := [0x02], before := [0x05], after := [0x05] }]

/-- An array under a key that clientPIN does not know. -/
def sampleNew : MapEntry ℤ :=
  { key := -1, keyBytes := [0x20], before := [], after := [0x81, 0x60] }

theorem parse_rearranged_clientPin : ∃ q,
    parseWith parseClientPin [0xA2, 0x01, 0x01, 0x02, 0x05] = .ok q ∧
      parseWith parseClientPin [0xA3, 0x02, 0x05, 0x20, 0x81, 0x60, 0x01, 0x01, 0xFF] = .ok q := by
  have hsame : ∀ ai : UInt8, ai < 24 → Same [(0 : UInt8) <<< 5 ||| ai] [(0 : UInt8) <<< 5 ||| ai] :=
    fun ai hai => ⟨.scalar (.inline hai) (.inl rfl), rfl⟩
  have hrearranged : Rearranged clientPinRules
      ([(5 : UInt8) <<< 5 ||| 2] ++ sampleEntries.flatMap fun e => e.keyBytes ++ e.before)
      ([(5 : UInt8) <<< 5 ||| 3] ++ [sampleEntries[1], sampleNew, sampleEntries[0]].flatMap
        fun e => e.keyBytes ++ e.after) := by
    have hhead : ∀ major ai : UInt8, ai < 24 → Head major ai.toNat [major <<< 5 ||| ai] :=
      fun _ _ hai => .inline hai
    -- the entries swapped, and one with the key -1 put between them
    refine @Rearranged.mk _ _ _ _ _ _ [sampleNew] _ (hhead 5 2 (by decide)) ?_ (by decide) ?_ ?_ ?_
      (hhead 5 3 (by decide))
    · rw [sampleEntries, List.forall_mem_cons, List.forall_mem_singleton]
      exact ⟨.nonneg (n := 1) (by decide) (hhead 0 1 (by decide)),
        .nonneg (n := 2) (by decide) (hhead 0 2 (by decide))⟩
    · rw [sampleEntries, List.forall_mem_cons, List.forall_mem_singleton]
      exact ⟨hsame 1 (by decide), hsame 5 (by decide)⟩
    · rw [List.forall_mem_singleton]
      have hskipped : Skipped [0x81, 0x60] := by
        unfold Skipped
        decide
      exact ⟨.neg (n := 0) (by decide) (hhead 1 0 (by decide)), by decide, hskipped⟩
    · exact @List.perm_append_comm _ [sampleEntries[1], sampleNew] [sampleEntries[0]]
  have hq : parseWith parseClientPin [0xA2, 0x01, 0x01, 0x02, 0x05] =
      .ok { protocol := some 1, sub := some 5 } := by decide
  exact ⟨_, hq, (parse_rearranged _ _ [] [0xFF]).2.2 hrearranged _ hq⟩

end Swpasskey.Requests
