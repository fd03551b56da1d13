import Swpasskey.Cbor

/-!
# Reading back what was written

`Reads m l a` says that the read `m` takes exactly the bytes `l`, wherever they stand in the
input, and returns `a`. Every reader of `cbor::Reader` reads what the writer of the same type
wrote, for every argument size of the head (`reads_takeHead`). Reads compose with the bytes:
`Reads.bind` for a sequence, `reads_loop` for the elements of an array, `reads_record` for a
map whose entries are found by their keys, in the order in which the writer sorted them.
-/

namespace Swpasskey.Cbor

/-! ### Heads -/

/-- The first byte of a head, taken apart. -/
theorem firstByte_bits (major ai : UInt8) (hmajor : major < 8) (hai : ai < 32) :
    (major <<< 5 ||| ai) >>> 5 = major ∧ (major <<< 5 ||| ai) &&& 0x1F = ai := by
  have hall : ∀ m : Fin 8, ∀ a : Fin 32,
      (UInt8.ofNat m <<< 5 ||| UInt8.ofNat a) >>> 5 = UInt8.ofNat m ∧
        (UInt8.ofNat m <<< 5 ||| UInt8.ofNat a) &&& 0x1F = UInt8.ofNat a := by
    decide +kernel
  have h := hall ⟨major.toNat, UInt8.lt_iff_toNat_lt.mp hmajor⟩
    ⟨ai.toNat, UInt8.lt_iff_toNat_lt.mp hai⟩
  rwa [UInt8.ofNat_toNat, UInt8.ofNat_toNat] at h

/-- One more byte of a big-endian number. -/
theorem toNat_shift_or (n : UInt64) (b : UInt8) (h : n.toNat < 2 ^ 56) :
    (n <<< 8 ||| b.toUInt64).toNat = n.toNat * 256 + b.toNat := by
  have hb : b.toNat < 2 ^ 8 := b.toNat_lt
  have hshift : n.toNat <<< 8 % 2 ^ 64 = n.toNat <<< 8 := by
    rw [Nat.shiftLeft_eq]
    exact Nat.mod_eq_of_lt (by omega)
  simp only [UInt64.toNat_or, UInt64.toNat_shiftLeft, UInt8.toNat_toUInt64]
  change n.toNat <<< 8 % 2 ^ 64 ||| b.toNat = _
  rw [hshift, ← Nat.shiftLeft_add_eq_or_of_lt hb, Nat.shiftLeft_eq]

theorem toNat_foldl (l : Bytes) (n : UInt64) (h : (n.toNat + 1) * 256 ^ l.length ≤ 2 ^ 64) :
    (l.foldl (fun (n : UInt64) b => n <<< 8 ||| b.toUInt64) n).toNat =
      l.foldl (fun n b => n * 256 + b.toNat) n.toNat := by
  induction l generalizing n with
  | nil => rfl
  | cons b l ih =>
    have hb : b.toNat < 256 := b.toNat_lt
    have hpow : 1 ≤ 256 ^ l.length := Nat.one_le_pow _ _ (by decide)
    have hlen : (n.toNat + 1) * 256 * 256 ^ l.length ≤ 2 ^ 64 := by
      rw [List.length_cons, pow_succ] at h
      linarith
    have hsmall : n.toNat < 2 ^ 56 := by
      have := (Nat.le_mul_of_pos_right ((n.toNat + 1) * 256) hpow).trans hlen
      omega
    rw [List.foldl_cons, List.foldl_cons, ih, toNat_shift_or n b hsmall]
    rw [toNat_shift_or n b hsmall]
    exact (Nat.mul_le_mul_right _ (by omega)).trans hlen

/-- The argument bytes of a head. -/
def argument (n : UInt64) : ℕ → Bytes
  | 1 => [n.toUInt8]
  | 2 => [(n >>> 8).toUInt8, n.toUInt8]
  | 4 => [(n >>> 24).toUInt8, (n >>> 16).toUInt8, (n >>> 8).toUInt8, n.toUInt8]
  | _ => [(n >>> 56).toUInt8, (n >>> 48).toUInt8, (n >>> 40).toUInt8, (n >>> 32).toUInt8,
      (n >>> 24).toUInt8, (n >>> 16).toUInt8, (n >>> 8).toUInt8, n.toUInt8]

theorem foldl_argument (n : UInt64) (extra : ℕ)
    (hextra : extra = 1 ∨ extra = 2 ∨ extra = 4 ∨ extra = 8) (hn : n.toNat < 256 ^ extra) :
    (argument n extra).foldl (fun (n : UInt64) b => n <<< 8 ||| b.toUInt64) 0 = n := by
  have hlt : n.toNat < 2 ^ 64 := n.toNat_lt
  refine UInt64.toNat_inj.mp ?_
  rcases hextra with rfl | rfl | rfl | rfl
  all_goals
    rw [toNat_foldl _ _ (by simp [argument])]
    simp only [argument, List.foldl_cons, List.foldl_nil]
    simp only [UInt64.toNat_toUInt8, UInt64.toNat_shiftRight, Nat.shiftRight_eq_div_pow,
      UInt64.reduceToNat, Nat.reduceMod, Nat.reducePow]
    omega

theorem length_argument {p : UInt8 × ℕ} {n : UInt64}
    (hp : p ∈ [((24 : UInt8), 1), (25, 2), (26, 4), (27, 8)]) : (argument n p.2).length = p.2 := by
  simp only [List.mem_cons, List.not_mem_nil, or_false] at hp
  rcases hp with rfl | rfl | rfl | rfl <;> rfl

/-- A head is its first byte, with the argument in it or behind it. -/
theorem encodeType_cases (major : UInt8) (n : UInt64) :
    n < 24 ∧ encodeType major n = [major <<< 5 ||| n.toUInt8] ∨
      ∃ p ∈ [((24 : UInt8), 1), (25, 2), (26, 4), (27, 8)], n.toNat < 256 ^ p.2 ∧
        encodeType major n = (major <<< 5 ||| p.1) :: argument n p.2 := by
  have hlt : n.toNat < 2 ^ 64 := n.toNat_lt
  unfold encodeType
  dsimp only
  split_ifs with h0 h1 h2 h4
  · exact .inl ⟨h0, rfl⟩
  · exact .inr ⟨(24, 1), by simp, (UInt64.le_iff_toNat_le.mp h1).trans_lt (by decide), rfl⟩
  · exact .inr ⟨(25, 2), by simp, (UInt64.le_iff_toNat_le.mp h2).trans_lt (by decide), rfl⟩
  · exact .inr ⟨(26, 4), by simp, (UInt64.le_iff_toNat_le.mp h4).trans_lt (by decide), rfl⟩
  · exact .inr ⟨(27, 8), by simp, hlt, rfl⟩

theorem encodeType_ne_nil (major : UInt8) (n : UInt64) : encodeType major n ≠ [] := by
  rcases encodeType_cases major n with ⟨-, heq⟩ | ⟨p, -, -, heq⟩
  · rw [heq]
    exact List.cons_ne_nil _ _
  · rw [heq]
    exact List.cons_ne_nil _ _

theorem length_le_flatMap {ι : Type} {l : List ι} {x : ι} (f : ι → Bytes) (hx : x ∈ l) :
    (f x).length ≤ (l.flatMap f).length := by
  obtain ⟨l₁, l₂, rfl⟩ := List.append_of_mem hx
  simp only [List.flatMap_append, List.flatMap_cons, List.length_append]
  omega

theorem length_le_encodeBstr (v : Bytes) : v.length ≤ (encodeBstr v).length := by simp [encodeBstr]

theorem length_le_encodeTstr (v : Bytes) : v.length ≤ (encodeTstr v).length := by simp [encodeTstr]

/-- A value is no longer than the map it stands in. -/
theorem length_le_encodeMap {entries : List Entry} {e : Entry} (he : e ∈ entries) :
    e.2.length ≤ (encodeMap entries).length := by
  have hmem : e ∈ entries.insertionSort fun a b => a.1 ≤ b.1 := (List.mem_insertionSort _).mpr he
  have := length_le_flatMap (fun e : Entry => e.1 ++ e.2) hmem
  rw [encodeMap, List.length_append]
  rw [List.length_append] at this
  omega

namespace Reader

open Proc

/-! ### Reads -/

section Reads

variable {α β ι : Type} {m : Read α} {f : α → Read β} {l l' : Bytes} {a : α} {b : β}

/-- The read takes exactly these bytes, wherever they stand in the input, and returns the
value. -/
def Reads (m : Read α) (l : Bytes) (a : α) : Prop :=
  ∀ before after, m { input := before ++ l ++ after, off := before.length } =
    (.ok a, { input := before ++ l ++ after, off := before.length + l.length })

theorem Reads.bind (h : Reads m l a) (h' : Reads (f a) l' b) : Reads (m >>= f) (l ++ l') b := by
  intro before after
  have hfirst := h before (l' ++ after)
  have hsecond := h' (before ++ l) after
  have hinput : before ++ l ++ (l' ++ after) = before ++ (l ++ l') ++ after := by simp
  have hinput' : before ++ l ++ l' ++ after = before ++ (l ++ l') ++ after := by simp
  rw [hinput] at hfirst
  rw [hinput', List.length_append] at hsecond
  rw [bind_apply_ok hfirst, hsecond, List.length_append, Nat.add_assoc]

theorem reads_pure (a : α) : Reads (pure a) [] a := fun _ _ => rfl

/-- A read whose rest takes nothing. -/
theorem Reads.bind_nil (h : Reads m l a) (h' : Reads (f a) [] b) : Reads (m >>= f) l b := by
  have hall := h.bind h'
  rwa [List.append_nil] at hall

/-- A read, and then a function of what it returned. -/
theorem Reads.map (h : Reads m l a) (g : α → β) : Reads (m >>= fun x => pure (g x)) l (g a) :=
  h.bind_nil (reads_pure (g a))

/-- The elements of an array, or the entries of a map, one after the other. -/
theorem reads_loop {f : β → Read β} {g : β → ι → β} {enc : ι → Bytes} (xs : List ι)
    (h : ∀ b, ∀ x ∈ xs, Reads (f b) (enc x) (g b x)) (b : β) :
    Reads (loop f xs.length b) (xs.flatMap enc) (xs.foldl g b) := by
  induction xs generalizing b with
  | nil => exact reads_pure b
  | cons x xs ih =>
    exact (h b x List.mem_cons_self).bind (ih (fun b y hy => h b y (List.mem_cons_of_mem x hy)) _)

/-- Whatever the input, a value that the read returns satisfies `P`. -/
def Yields (m : Read α) (P : α → Prop) : Prop :=
  ∀ r, m.Run r (fun a _ => P a) (fun _ _ => True) fun _ => True

theorem yields_any (m : Read α) : Yields m fun _ => True :=
  fun _ => run_onReturn.mpr fun _ _ _ => trivial

theorem yields_pure {P : α → Prop} (h : P a) : Yields (pure a) P := fun _ => h

theorem Yields.bind {P : α → Prop} {Q : β → Prop} (hm : Yields m P)
    (hf : ∀ a, P a → Yields (f a) Q) : Yields (m >>= f) Q :=
  fun r => run_bind.mpr ((hm r).weaken fun a r' ha => hf a ha r')

theorem yields_loop {f : β → Read β} {P : β → Prop} (hf : ∀ b, P b → Yields (f b) P) (n : ℕ)
    (hb : P b) : Yields (loop f n b) P := by
  induction n generalizing b with
  | zero => exact yields_pure hb
  | succ n ih => exact (hf b hb).bind fun b' hb' => ih hb'

theorem Yields.of_parseWith {P : α → Prop} (hm : Yields m P) (h : parseWith m l = .ok a) : P a := by
  unfold Reader.parseWith at h
  have hrun := hm { input := l }
  rcases hread : m { input := l } with ⟨b | e | _, r⟩ <;> rw [hread] at h
  · cases h
    exact hrun.ok hread
  · cases h
  · cases h

/-- A read over a whole byte string that starts with what it takes. -/
theorem Reads.parseWith (h : Reads m l a) : parseWith m l = .ok a := by
  have := h [] []
  rw [List.nil_append, List.append_nil, List.length_nil] at this
  rw [Reader.parseWith, this]

end Reads

/-! ### The readers -/

section Readers

variable {v : Bytes}

theorem reads_takeByte (ib : UInt8) : Reads takeByte [ib] ib := by
  intro before after
  rw [takeByte, if_neg (by simp)]
  simp

theorem reads_takeArgument (l : Bytes) : Reads (takeArgument l.length) l
    (l.foldl (fun (n : UInt64) b => n <<< 8 ||| b.toUInt64) 0) := by
  intro before after
  rw [takeArgument, if_neg (by simp)]
  simp

theorem reads_takeBytes (hv : v.length < 2 ^ 64) :
    Reads (takeBytes (UInt64.ofNat v.length)) v v := by
  have hlen : (UInt64.ofNat v.length).toNat = v.length := Nat.mod_eq_of_lt hv
  intro before after
  rw [takeBytes, hlen, if_neg (by simp)]
  simp

/-- `take_head` behind the first byte. -/
def takeRest (major ai : UInt8) : Read (UInt8 × UInt64) :=
  if ai = 31 then throw .invalidCbor
  else if ai = 24 then do return (major, ← takeArgument 1)
  else if ai = 25 then do return (major, ← takeArgument 2)
  else if ai = 26 then do return (major, ← takeArgument 4)
  else if ai = 27 then do return (major, ← takeArgument 8)
  else if ai > 27 then throw .invalidCbor
  else return (major, ai.toUInt64)

theorem takeHead_eq : takeHead = takeByte >>= fun ib => takeRest (ib >>> 5) (ib &&& 0x1F) := rfl

/-- The argument is in the first byte. -/
theorem takeRest_of_lt {ai : UInt8} (major : UInt8) (h : ai < 24) :
    takeRest major ai = pure (major, ai.toUInt64) := by
  have hlt : ai.toNat < 24 := UInt8.lt_iff_toNat_lt.mp h
  have hne : ∀ k : UInt8, 24 ≤ k.toNat → ai ≠ k := by
    rintro k hk rfl
    omega
  have hle : ¬ ai > 27 := by
    rw [gt_iff_lt, UInt8.lt_iff_toNat_lt]
    exact not_lt.mpr (hlt.le.trans (by decide))
  rw [takeRest, if_neg (hne 31 (by decide)), if_neg (hne 24 (by decide)),
    if_neg (hne 25 (by decide)), if_neg (hne 26 (by decide)), if_neg (hne 27 (by decide)),
    if_neg hle]

/-- The argument is behind the first byte. -/
theorem reads_takeRest {ai : UInt8} {l : Bytes} (major : UInt8)
    (h : (ai, l.length) ∈ [((24 : UInt8), 1), (25, 2), (26, 4), (27, 8)]) :
    ai < 32 ∧ Reads (takeRest major ai) l
      (major, l.foldl (fun (n : UInt64) b => n <<< 8 ||| b.toUInt64) 0) := by
  have hargument := (reads_takeArgument l).map fun n => (major, n)
  simp only [List.mem_cons, List.not_mem_nil, or_false, Prod.mk.injEq] at h
  rcases h with ⟨rfl, hl⟩ | ⟨rfl, hl⟩ | ⟨rfl, hl⟩ | ⟨rfl, hl⟩
  all_goals
    rw [hl] at hargument
    exact ⟨by decide, hargument⟩

theorem reads_takeHead (major : UInt8) (n : UInt64) (hmajor : major < 8) :
    Reads takeHead (encodeType major n) (major, n) := by
  rw [takeHead_eq]
  rcases encodeType_cases major n with ⟨hn, heq⟩ | ⟨p, hp, hn, heq⟩
  · have hlt : n.toUInt8.toNat < 24 ∧ n.toNat < 24 := by
      have := UInt64.lt_iff_toNat_lt.mp hn
      simp only [UInt64.reduceToNat] at this
      rw [UInt64.toNat_toUInt8]
      omega
    obtain ⟨hhigh, hlow⟩ := firstByte_bits major n.toUInt8 hmajor
      (UInt8.lt_iff_toNat_lt.mpr (hlt.1.trans (by decide)))
    -- a small argument survives the cut to one byte
    have hsame : n.toUInt8.toUInt64 = n := by
      refine UInt64.toNat_inj.mp ?_
      rw [UInt8.toNat_toUInt64, UInt64.toNat_toUInt8]
      omega
    rw [heq]
    refine (reads_takeByte _).bind_nil ?_
    rw [hhigh, hlow, takeRest_of_lt major (UInt8.lt_iff_toNat_lt.mpr hlt.1), hsame]
    exact reads_pure _
  · have hextra : p.2 = 1 ∨ p.2 = 2 ∨ p.2 = 4 ∨ p.2 = 8 := by
      simp only [List.mem_cons, List.not_mem_nil, or_false] at hp
      rcases hp with rfl | rfl | rfl | rfl <;> simp
    obtain ⟨hai, hrest⟩ := reads_takeRest (l := argument n p.2) major (by rwa [length_argument hp])
    obtain ⟨hhigh, hlow⟩ := firstByte_bits major p.1 hmajor hai
    rw [foldl_argument n p.2 hextra hn] at hrest
    rw [heq]
    refine (reads_takeByte _).bind ?_
    rwa [hhigh, hlow]

theorem reads_headOf (major : UInt8) (n : UInt64) (hmajor : major < 8) :
    Reads (headOf major) (encodeType major n) n := by
  refine (reads_takeHead major n hmajor).bind_nil ?_
  rw [if_neg (not_not.mpr rfl)]
  exact reads_pure n

theorem reads_uint (n : UInt64) : Reads uint (encodeUint n) n := reads_headOf 0 n (by decide)

theorem reads_bstr (hv : v.length < 2 ^ 64) : Reads bstr (encodeBstr v) v :=
  (reads_headOf 2 _ (by decide)).bind (reads_takeBytes hv)

theorem reads_tstr (hv : v.length < 2 ^ 64) : Reads tstr (encodeTstr v) v :=
  (reads_headOf 3 _ (by decide)).bind (reads_takeBytes hv)

theorem reads_boolean (b : Bool) : Reads boolean (encodeBool b) b := by
  cases b
  · exact (reads_takeByte 0xF4).bind_nil (reads_pure false)
  · exact (reads_takeByte 0xF5).bind_nil (reads_pure true)

theorem reads_array {n : ℕ} (hn : n < 2 ^ 64) : Reads array (encodeArrayHeader n) n := by
  have := (reads_headOf 4 (UInt64.ofNat n) (by decide)).map UInt64.toNat
  rwa [show (UInt64.ofNat n).toNat = n from Nat.mod_eq_of_lt hn] at this

theorem reads_map {n : ℕ} (hn : n < 2 ^ 64) : Reads map (encodeType 5 (UInt64.ofNat n)) n := by
  have := (reads_headOf 5 (UInt64.ofNat n) (by decide)).map UInt64.toNat
  rwa [show (UInt64.ofNat n).toNat = n from Nat.mod_eq_of_lt hn] at this

/-- **Records.** A map whose fields are `xs` is read field by field, in the order of the
encoded keys. -/
theorem reads_record {ι β : Type} {f : Bytes → β → Read β} (key value : ι → Bytes) (g : β → ι → β)
    (xs : List ι) (hlen : xs.length < 2 ^ 64) (hkey : ∀ x ∈ xs, (key x).length < 2 ^ 64)
    (h : ∀ b, ∀ x ∈ xs, Reads (f (key x) b) (value x) (g b x)) (b : β) :
    Reads (map >>= fun n => loop (fun b => tstr >>= fun k => f k b) n b)
      (encodeMap (xs.map fun x => (encodeTstr (key x), value x)))
      ((xs.insertionSort fun x y => encodeTstr (key x) ≤ encodeTstr (key y)).foldl g b) := by
  have hsort := List.map_insertionSort (fun x y => encodeTstr (key x) ≤ encodeTstr (key y))
    (fun a b : Entry => a.1 ≤ b.1) (fun x => (encodeTstr (key x), value x)) xs
    (fun _ _ _ _ => Iff.rfl)
  rw [encodeMap, ← hsort, List.flatMap_map, List.length_map]
  refine (reads_map hlen).bind ?_
  have hsorted : xs.length =
      (xs.insertionSort fun x y => encodeTstr (key x) ≤ encodeTstr (key y)).length :=
    (List.length_insertionSort _ _).symm
  rw [hsorted]
  refine reads_loop _ (fun b x hx => ?_) b
  have hx : x ∈ xs := (List.mem_insertionSort _).mp hx
  exact (reads_tstr (hkey x hx)).bind (h b x hx)

/-- A record of two fields that may be read in either order. -/
theorem reads_record_pair {β : Type} {f : Bytes → β → Read β} {v₁ v₂ : Bytes} (k₁ k₂ : Bytes)
    (g₁ g₂ : β → β)
    (hk₁ : k₁.length < 2 ^ 64) (hk₂ : k₂.length < 2 ^ 64)
    (h₁ : ∀ b, Reads (f k₁ b) v₁ (g₁ b)) (h₂ : ∀ b, Reads (f k₂ b) v₂ (g₂ b))
    (hcomm : ∀ b, g₁ (g₂ b) = g₂ (g₁ b)) (b : β) :
    Reads (map >>= fun n => loop (fun b => tstr >>= fun k => f k b) n b)
      (encodeMap [(encodeTstr k₁, v₁), (encodeTstr k₂, v₂)]) (g₂ (g₁ b)) := by
  have hrecord := reads_record (f := f) (fun x => if x then k₁ else k₂)
    (fun x => if x then v₁ else v₂) (fun b x => if x then g₁ b else g₂ b) [true, false] (by decide)
    (by rintro (_ | _) - <;> assumption) (by rintro b (_ | _) - <;> simp [h₁, h₂]) b
  have hfold : ([true, false].insertionSort fun x y => encodeTstr (if x then k₁ else k₂) ≤
      encodeTstr (if y then k₁ else k₂)).foldl (fun b x => if x then g₁ b else g₂ b) b =
        g₂ (g₁ b) := by
    by_cases hle : encodeTstr k₁ ≤ encodeTstr k₂
    · simp [hle]
    · simp [hle, hcomm]
  rwa [hfold] at hrecord

end Readers

end Reader

end Swpasskey.Cbor
