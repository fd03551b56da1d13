import Swpasskey.Ctap.RequestMaps
import Swpasskey.Store.Load

/-!
# Hostile counts

The parsers of makeCredential, getAssertion and clientPIN requests and the loader of the store
are paced: each of their loops, at every nesting level and whatever count the head declares,
takes at least a byte in every iteration or fails. A loop over a map takes the key, a loop over
an array the head of the element.
-/

namespace Swpasskey

open Proc Cbor Cbor.Reader

namespace Requests

/-! ### Values -/

theorem paced_readIntKey : Paced readIntKey := by
  rw [readIntKey, peekMajor_orFail]
  exact Paced.peekMajor.bind fun m => (Paced.require _ _).bind fun _ => paced_integer

theorem advances_readIntKey : Advances readIntKey := by
  rw [readIntKey, peekMajor_orFail]
  refine Paced.peekMajor.steady.bind_advances fun m => ?_
  exact (Paced.require _ _).steady.bind_advances fun _ => advances_integer

theorem paced_blockOf (n : ℕ) : Paced (blockOf n) := by
  refine paced_bstr.bind fun l => ?_
  split
  · exact .pure _
  · exact .throw _

/-! ### Entities, keys and algorithms -/

theorem paced_withId {α : Type} (q : α × Bool) : Paced (withId q) :=
  (Paced.require _ _).bind fun _ => .pure _

theorem paced_descriptorOf (d : PubKeyCredDescriptor) : Paced (descriptorOf d) :=
  (Paced.require _ _).bind fun _ => .pure d

theorem paced_descriptorFields : ∀ f ∈ descriptorFields, Paced f.value := by
  simp [descriptorFields, paced_tstr, paced_bstr]

theorem paced_parseDescriptorList : Paced parseDescriptorList := by
  have hpaced : Paced parseDescriptor := by
    rw [parseDescriptor_eq]
    exact (paced_record paced_tstr advances_tstr paced_descriptorFields paced_skip _).bind
      paced_descriptorOf
  have hadvances : Advances parseDescriptor := by
    rw [parseDescriptor_eq]
    exact (advances_record paced_tstr advances_tstr paced_descriptorFields paced_skip _).bind
      fun d =>
      (paced_descriptorOf d).steady
  exact paced_elements hpaced hadvances (fun out d => out ++ [d]) []

theorem paced_parseRp : Paced parseRp := by
  rw [parseRp_eq]
  refine (paced_record paced_tstr advances_tstr ?_ paced_skip _).bind paced_withId
  simp [rpFields, paced_tstr]

theorem paced_parseUser : Paced parseUser := by
  rw [parseUser_eq]
  refine (paced_record paced_tstr advances_tstr ?_ paced_skip _).bind paced_withId
  simp [userFields, paced_tstr, paced_bstr]

theorem paced_parseOptions : Paced parseOptions := by
  rw [parseOptions_eq]
  refine paced_record paced_tstr advances_tstr ?_ (paced_boolean.map _) _
  simp [optionsFields, paced_boolean]

theorem paced_parseCoseP256 : Paced parseCoseP256 := by
  have hexpected (k : ℤ) :
      Paced (integer >>= fun v => require (v = k) .invalidParameter) :=
    paced_integer.bind fun _ => .require _ _
  rw [parseCoseP256_eq]
  refine (paced_record paced_readIntKey advances_readIntKey ?_ paced_skip _).bind fun q => ?_
  · simp [coseFields, paced_blockOf, hexpected]
  · unfold coseOf
    split
    · exact .pure _
    · exact .throw _

theorem paced_paramOf (q : Bytes × Option ℤ) : Paced (paramOf q) := by
  refine (Paced.require _ _).bind fun _ => ?_
  split
  · exact .pure _
  · exact .throw _

theorem paced_paramFields : ∀ f ∈ paramFields, Paced f.value := by
  simp [paramFields, paced_tstr, paced_integer]

theorem paced_parsePubKeyCredParamsHasEs256 : Paced parsePubKeyCredParamsHasEs256 := by
  have hpaced : Paced parsePubKeyCredParam := by
    rw [parsePubKeyCredParam_eq]
    exact (paced_record paced_tstr advances_tstr paced_paramFields paced_skip _).bind paced_paramOf
  have hadvances : Advances parsePubKeyCredParam := by
    rw [parsePubKeyCredParam_eq]
    exact (advances_record paced_tstr advances_tstr paced_paramFields paced_skip _).bind fun q =>
      (paced_paramOf q).steady
  exact paced_elements hpaced hadvances
    (fun found p => found || (p.1 = ascii "public-key" && p.2 = -7))
    false

/-! ### Extensions -/

theorem paced_hmacExtension : Paced HmacExtension.read := by
  have hrecord : Paced (record readIntKey hmacSecretFields skip {}) := by
    refine paced_record paced_readIntKey advances_readIntKey ?_ paced_skip _
    simp [hmacSecretFields, paced_parseCoseP256, paced_bstr, paced_uint]
  refine Paced.peekMajor.bind fun m => .ite (paced_boolean.map _) (.ite (hrecord.map _) ?_)
  exact paced_skip.map _

theorem paced_parseExtensions : Paced parseExtensions := by
  rw [parseExtensions_eq]
  refine paced_record paced_tstr advances_tstr ?_ paced_skip _
  simp [extensionsFields, paced_uint, paced_hmacExtension]

/-! ### Requests -/

theorem paced_parseMakeCredential : Paced parseMakeCredential := by
  rw [parseMakeCredential_eq]
  refine (paced_record paced_readIntKey advances_readIntKey ?_ paced_skip _).bind fun q => ?_
  · simp [makeCredentialFields, paced_blockOf, paced_parseRp, paced_parseUser,
      paced_parsePubKeyCredParamsHasEs256, paced_parseDescriptorList, paced_parseExtensions,
      paced_parseOptions, paced_bstr, paced_uint, paced_boolean]
  · unfold makeCredentialOf
    split
    · exact .pure _
    · exact .throw _

theorem paced_parseGetAssertion : Paced parseGetAssertion := by
  rw [parseGetAssertion_eq]
  refine (paced_record paced_readIntKey advances_readIntKey ?_ paced_skip _).bind fun q => ?_
  · simp [getAssertionFields, paced_tstr, paced_blockOf, paced_parseDescriptorList,
      paced_parseExtensions, paced_parseOptions, paced_bstr, paced_uint]
  · unfold getAssertionOf
    split
    · exact .pure _
    · exact .throw _

theorem paced_parseClientPin : Paced parseClientPin := by
  rw [parseClientPin_eq]
  refine paced_record paced_readIntKey advances_readIntKey ?_ paced_skip _
  simp [clientPinFields, paced_uint, paced_parseCoseP256, paced_bstr, paced_tstr]

end Requests

/-! ### The store -/

namespace Store

theorem paced_readFixed (n : ℕ) : Paced (readFixed n) := by
  refine paced_bstr.bind fun l => ?_
  split
  · exact .pure _
  · exact .throw _

/-- A map read key by key, its values as they come. -/
theorem paced_textMap {σ : Type} {f : Bytes → σ → Read σ} (hf : ∀ k b, Paced (f k b)) (b : σ) :
    Paced (map >>= fun n => loop (fun b => tstr >>= fun k => f k b) n b) :=
  paced_map.bind fun n => .loop (fun b => paced_tstr.bind fun k => hf k b)
    (fun b => advances_tstr.bind fun k => (hf k b).steady) n b

theorem paced_decodeField (k : Bytes) (c : Credential) : Paced (decodeField k c) := by
  have htext (g : Bytes → Credential) : Paced (tstr >>= fun v => pure (g v)) := paced_tstr.map g
  have hbytes (g : Bytes → Credential) : Paced (bstr >>= fun v => pure (g v)) := paced_bstr.map g
  have hfixed (n : ℕ) (g : Block n → Credential) : Paced (readFixed n >>= fun v => pure (g v)) :=
    (paced_readFixed n).map g
  have hnumber (g : UInt64 → Credential) : Paced (uint >>= fun v => pure (g v)) := paced_uint.map g
  unfold decodeField
  refine .ite (htext _) (.ite (hfixed 32 _) (.ite (htext _) (.ite (hbytes _) (.ite (htext _) ?_))))
  refine .ite (htext _) (.ite (hfixed 32 _) (.ite (paced_uint.bind fun v => ?_) ?_))
  · split
    · exact .pure _
    · exact .throw _
  refine .ite (hbytes _) (.ite (hbytes _) (.ite (hfixed 32 _) (.ite (hfixed 32 _) ?_)))
  refine .ite (hnumber _) (.ite (hnumber _) (.ite (hnumber _) (.ite (hbytes _) ?_)))
  exact .ite (paced_boolean.map _) (paced_skip.map _)

theorem paced_decodeCredential : Paced decodeCredential := paced_textMap paced_decodeField _

theorem advances_decodeCredential : Advances decodeCredential :=
  advances_map.bind fun n => Paced.steady (.loop
    (fun c => paced_tstr.bind fun k => paced_decodeField k c)
    (fun c => advances_tstr.bind fun k => (paced_decodeField k c).steady) n _)

theorem paced_loadPinField (k : Bytes) (p : PinState) : Paced (loadPinField k p) :=
  .ite ((paced_readFixed 16).map _) (.ite (paced_uint.map _) (paced_skip.map _))

theorem paced_loadTpmField (k : Bytes) (t : TpmState) : Paced (loadTpmField k t) :=
  .ite ((paced_readFixed 32).map _) (.ite ((paced_readFixed 32).map _) (paced_skip.map _))

theorem paced_loadU2fField (k : Bytes) (a : U2fAttestation) : Paced (loadU2fField k a) :=
  .ite (paced_bstr.map _) (.ite (paced_bstr.map _) (paced_skip.map _))

theorem paced_validated (out : List Credential) (c : Credential) :
    Paced (match validate c with
      | .ok () => pure (out ++ [c])
      | .error _ => throw .other : Read (List Credential)) := by
  split
  · exact .pure _
  · exact .throw _

/-- The rows: each takes its map. -/
theorem paced_rows (out : List Credential) : Paced (array >>= fun n => loop loadRow n out) :=
  paced_array.bind fun n => .loop (fun out => paced_decodeCredential.bind (paced_validated out))
    (fun out => advances_decodeCredential.bind fun c => (paced_validated out c).steady) n out

theorem paced_loadField (k : Bytes) (s : Store) : Paced (loadField k s) := by
  unfold loadField
  refine .ite ((paced_readFixed 16).map _) (.ite ((paced_readFixed 16).map _) ?_)
  refine .ite (paced_tstr.map _) (.ite ((paced_textMap paced_loadPinField _).map _) ?_)
  refine .ite ((paced_textMap paced_loadTpmField _).map _) ?_
  refine .ite ((paced_textMap paced_loadU2fField _).map _) ?_
  exact .ite ((paced_rows _).map _) (paced_skip.map _)

theorem paced_load : Paced load := paced_textMap paced_loadField _

end Store

/-! ### Every parser -/

/-- On every input the read returns or fails, with the offset within the input. It only goes
forward on the way, so it has been within the input all the time. -/
def EndsWithin {α : Type} (m : Read α) : Prop :=
  ∀ input : Bytes, ∃ o, ∃ off ≤ input.length, m { input } = (o, { input, off }) ∧ o ≠ .died

end Swpasskey
