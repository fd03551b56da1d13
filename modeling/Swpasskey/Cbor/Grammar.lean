import Swpasskey.Cbor.Progress

/-!
# The grammar of what is skipped

`Item limit d l` says that the bytes `l` are one complete item of definite length at nesting
depth `d`, in which no item lies deeper than `limit`: heads of any width, counts that match
what follows, strings of any bytes. It is a grammar of its own, with no offset and no count
of levels.

`Reader::skip` accepts exactly this grammar (`skip_iff`). That it reads every item is one
induction over the derivation (`reads_item`). The converse says what a successful read has
taken, whatever the input: `Takes m P` composes like the reads do, and a read of an item
takes an item (`takes_skipDepth`).
-/

namespace Swpasskey.Cbor

/-! ### The grammar -/

/-- The number whose big-endian bytes these are. -/
def bigEndian (l : Bytes) : ℕ := l.foldl (fun n b => n * 256 + b.toNat) 0

/-- The major type of an encoded item. -/
def majorType (l : Bytes) : UInt8 := l.headD 0 >>> 5

/-- A head with this major type and this argument, in any width. -/
inductive Head (major : UInt8) : ℕ → Bytes → Prop
  | inline {ai : UInt8} (h : ai < 24) : Head major ai.toNat [major <<< 5 ||| ai]
  | wide {ai : UInt8} {l : Bytes}
    (h : (ai, l.length) ∈ [((24 : UInt8), 1), (25, 2), (26, 4), (27, 8)]) :
    Head major (bigEndian l) ((major <<< 5 ||| ai) :: l)

/-- One item of definite length at depth `d`, no item in it deeper than `limit`. -/
inductive Item (limit : ℕ) : ℕ → Bytes → Prop
  /-- Integers, simple values and floats are heads. -/
  | scalar {d n : ℕ} {major : UInt8} {h : Bytes} (hd : d ≤ limit)
    (hmajor : major = 0 ∨ major = 1 ∨ major = 7) (hhead : Head major n h) : Item limit d h
  /-- Byte strings and text strings. -/
  | string {d : ℕ} {major : UInt8} {h v : Bytes} (hd : d ≤ limit) (hmajor : major = 2 ∨ major = 3)
    (hhead : Head major v.length h) : Item limit d (h ++ v)
  | array {d : ℕ} {h : Bytes} {items : List Bytes} (hd : d ≤ limit)
    (hhead : Head 4 items.length h) (hitems : ∀ l ∈ items, Item limit (d + 1) l) :
    Item limit d (h ++ items.flatten)
  | map {d : ℕ} {h : Bytes} {entries : List (Bytes × Bytes)} (hd : d ≤ limit)
    (hhead : Head 5 entries.length h) (hkeys : ∀ e ∈ entries, Item limit (d + 1) e.1)
    (hvalues : ∀ e ∈ entries, Item limit (d + 1) e.2) :
    Item limit d (h ++ entries.flatMap fun e => e.1 ++ e.2)
  | tag {d n : ℕ} {h l : Bytes} (hd : d ≤ limit) (hhead : Head 6 n h)
    (hitem : Item limit (d + 1) l) : Item limit d (h ++ l)

theorem bigEndian_lt (l : Bytes) : bigEndian l < 256 ^ l.length := by
  induction l using List.reverseRecOn with
  | nil => decide
  | append_singleton l b ih =>
    have hb : b.toNat < 256 := b.toNat_lt
    rw [bigEndian, List.foldl_append, ← bigEndian, List.foldl_cons, List.foldl_nil,
      List.length_append, List.length_singleton, pow_succ]
    omega

theorem Head.ne_nil {major : UInt8} {n : ℕ} {l : Bytes} (h : Head major n l) : l ≠ [] := by
  cases h <;> exact List.cons_ne_nil _ _

/-- An argument fits 64 bits. -/
theorem Head.lt {major : UInt8} {n : ℕ} {l : Bytes} (h : Head major n l) : n < 2 ^ 64 := by
  cases h with
  | @inline ai h => exact (ai.toNat_lt).trans (by decide)
  | @wide ai l h =>
    have hlen : l.length ≤ 8 := by
      simp only [List.mem_cons, List.not_mem_nil, or_false, Prod.mk.injEq] at h
      omega
    exact (bigEndian_lt l).trans_le ((Nat.pow_le_pow_right (by decide) hlen).trans (by decide))

theorem Item.ne_nil {limit d : ℕ} {l : Bytes} (h : Item limit d l) : l ≠ [] := by
  cases h with
  | scalar hd hmajor hhead => exact hhead.ne_nil
  | string hd hmajor hhead => exact List.append_ne_nil_of_left_ne_nil hhead.ne_nil _
  | array hd hhead hitems => exact List.append_ne_nil_of_left_ne_nil hhead.ne_nil _
  | map hd hhead hkeys hvalues => exact List.append_ne_nil_of_left_ne_nil hhead.ne_nil _
  | tag hd hhead hitem => exact List.append_ne_nil_of_left_ne_nil hhead.ne_nil _

/-- What counts is how far the limit is away. -/
theorem Item.mono {limit d : ℕ} {l : Bytes} (h : Item limit d l) {limit' d' : ℕ}
    (hle : limit + d' ≤ limit' + d) : Item limit' d' l := by
  induction h generalizing d' with
  | scalar hd hmajor hhead => exact .scalar (by omega) hmajor hhead
  | string hd hmajor hhead => exact .string (by omega) hmajor hhead
  | array hd hhead hitems ih => exact .array (by omega) hhead fun l hl => ih l hl (by omega)
  | map hd hhead hkeys hvalues ihk ihv =>
    exact .map (by omega) hhead (fun e he => ihk e he (by omega)) fun e he => ihv e he (by omega)
  | tag hd hhead hitem ih => exact .tag (by omega) hhead (ih (by omega))

/-- One item of any nesting depth. -/
def WellFormed (l : Bytes) : Prop := ∃ limit, Item limit 0 l

theorem WellFormed.scalar {major : UInt8} {n : ℕ} {l : Bytes} (h : Head major n l)
    (hmajor : major = 0 ∨ major = 1 ∨ major = 7) : WellFormed l := ⟨0, .scalar le_rfl hmajor h⟩

theorem WellFormed.ne_nil {l : Bytes} (h : WellFormed l) : l ≠ [] := by
  obtain ⟨limit, h⟩ := h
  exact h.ne_nil

namespace Reader

open Proc

/-! ### What a successful read has taken -/

section Takes

variable {α β : Type} {m : Read α} {f : α → Read β} {a : α} {P : α → Bytes → Prop}
  {Q : β → Bytes → Prop}

/-- A read that returns `a` has taken the bytes `l` in front of it, with `P a l`, and takes
them wherever they stand. -/
def Takes (m : Read α) (P : α → Bytes → Prop) : Prop :=
  ∀ r a r', m r = (.ok a, r') →
    ∃ l, P a l ∧ Reads m l a ∧ l <+: r.input.drop r.off ∧ r' = { r with off := r.off + l.length }

theorem Takes.mono {P' : α → Bytes → Prop} (h : Takes m P) (hP : ∀ a l, P a l → P' a l) :
    Takes m P' := by
  intro r a r' hm
  obtain ⟨l, hl, hrest⟩ := h r a r' hm
  exact ⟨l, hP a l hl, hrest⟩

theorem takes_pure (h : P a []) : Takes (pure a) P := by
  intro r b r' hm
  obtain ⟨rfl, rfl⟩ : a = b ∧ r = r' := by simpa using hm
  exact ⟨[], h, reads_pure a, List.nil_prefix, rfl⟩

theorem takes_throw (e : Status) : Takes (throw e) P := by
  intro r a r' hm
  cases hm

/-- The bytes of a sequence are those of its parts, one behind the other. -/
theorem Takes.bind (hm : Takes m P) (hf : ∀ a l, P a l → Takes (f a) fun b l' => Q b (l ++ l')) :
    Takes (m >>= f) Q := by
  intro r b r' h
  rcases hread : m r with ⟨a | e | _, r₁⟩
  · rw [bind_apply_ok hread] at h
    obtain ⟨l, hl, hreads, hpre, rfl⟩ := hm r a r₁ hread
    obtain ⟨l', hl', hreads', hpre', rfl⟩ := hf a l hl _ b r' h
    refine ⟨l ++ l', hl', hreads.bind hreads', ?_, ?_⟩
    · obtain ⟨rest, hrest⟩ := hpre
      obtain ⟨rest', hrest'⟩ := hpre'
      refine ⟨rest', ?_⟩
      have hdrop : (r.input.drop r.off).drop l.length = rest := by
        rw [← hrest, List.drop_left]
      rw [List.drop_drop] at hdrop
      rw [List.append_assoc, hrest', hdrop, hrest]
    · rw [List.length_append, Nat.add_assoc]
  · rw [bind_apply_err hread] at h
    cases h
  · rw [bind_apply_died hread] at h
    cases h

/-- A read, and then a function of what it returned. -/
theorem Takes.map (hm : Takes m P) {g : α → β} (hg : ∀ a l, P a l → Q (g a) l) :
    Takes (m >>= fun a => pure (g a)) Q := by
  refine hm.bind fun a l hl => takes_pure ?_
  rw [List.append_nil]
  exact hg a l hl

/-- The items of an array, or the entries of a map, as many as the head declares. -/
theorem takes_loop {f : β → Read β} {P : Bytes → Prop} (h : ∀ b, Takes (f b) fun _ l => P l)
    (n : ℕ) (b : β) : Takes (loop f n b) fun _ l =>
      ∃ items : List Bytes, items.length = n ∧ (∀ x ∈ items, P x) ∧ l = items.flatten := by
  induction n generalizing b with
  | zero => exact takes_pure ⟨[], rfl, by simp, rfl⟩
  | succ n ih =>
    refine (h b).bind fun b' l hl => (ih b').mono ?_
    rintro b'' _ ⟨items, hlen, hitems, rfl⟩
    exact ⟨l :: items, by rw [List.length_cons, hlen], List.forall_mem_cons.mpr ⟨hl, hitems⟩, rfl⟩

end Takes

/-! ### Heads -/

theorem takes_takeByte : Takes takeByte fun b l => l = [b] := by
  intro r b r' h
  unfold takeByte at h
  by_cases hoff : r.off ≥ r.input.length
  · rw [if_pos hoff] at h
    cases h
  · rw [if_neg hoff] at h
    cases h
    refine ⟨[_], rfl, reads_takeByte _, ?_, rfl⟩
    rw [List.getD_eq_getElem _ _ (not_le.mp hoff), List.drop_eq_getElem_cons (not_le.mp hoff)]
    exact ⟨_, rfl⟩

theorem takes_takeArgument (extra : ℕ) : Takes (takeArgument extra) fun n l =>
    l.length = extra ∧ n = l.foldl (fun (n : UInt64) b => n <<< 8 ||| b.toUInt64) 0 := by
  intro r n r' h
  unfold takeArgument at h
  by_cases hoff : r.off + extra > r.input.length
  · rw [if_pos hoff] at h
    cases h
  · rw [if_neg hoff] at h
    cases h
    have hlen : ((r.input.drop r.off).take extra).length = extra := by
      rw [List.length_take, List.length_drop]
      omega
    refine ⟨(r.input.drop r.off).take extra, ⟨hlen, rfl⟩, ?_, List.take_prefix _ _, by rw [hlen]⟩
    have hreads := reads_takeArgument ((r.input.drop r.off).take extra)
    rwa [hlen] at hreads

theorem takes_takeBytes (n : UInt64) :
    Takes (takeBytes n) fun v l => l = v ∧ v.length = n.toNat := by
  intro r v r' h
  unfold takeBytes at h
  by_cases hoff : n.toNat > r.input.length - r.off
  · rw [if_pos hoff] at h
    cases h
  · rw [if_neg hoff] at h
    cases h
    have hlen : ((r.input.drop r.off).take n.toNat).length = n.toNat := by
      rw [List.length_take, List.length_drop]
      omega
    refine ⟨(r.input.drop r.off).take n.toNat, ⟨rfl, hlen⟩, ?_, List.take_prefix _ _, by rw [hlen]⟩
    have hreads := reads_takeBytes (v := (r.input.drop r.off).take n.toNat)
      (by rw [hlen]; exact n.toNat_lt)
    rwa [hlen, UInt64.ofNat_toNat] at hreads

/-- The argument bytes, as the number they stand for. -/
theorem foldl_eq_ofNat {l : Bytes} (h : l.length ≤ 8) :
    l.foldl (fun (n : UInt64) b => n <<< 8 ||| b.toUInt64) 0 = UInt64.ofNat (bigEndian l) := by
  have hpow : 256 ^ l.length ≤ 2 ^ 64 := (Nat.pow_le_pow_right (by decide) h).trans (by decide)
  have hnat := toNat_foldl l 0 (by simpa using hpow)
  rw [← UInt64.toNat_inj, hnat, UInt64.toNat_ofNat_of_lt' ((bigEndian_lt l).trans_le hpow)]
  rfl

/-- Every head is read. -/
theorem reads_head {major : UInt8} {n : ℕ} {l : Bytes} (h : Head major n l) (hmajor : major < 8) :
    Reads takeHead l (major, UInt64.ofNat n) := by
  rw [takeHead_eq]
  cases h with
  | @inline ai h =>
    obtain ⟨hhigh, hlow⟩ := firstByte_bits major ai hmajor (h.trans (b := 24) (by decide))
    refine (reads_takeByte _).bind_nil ?_
    have hsame : ai.toUInt64 = UInt64.ofNat ai.toNat := by simp
    rw [hhigh, hlow, takeRest_of_lt major h, hsame]
    exact reads_pure _
  | @wide ai l h =>
    have hlen : l.length ≤ 8 := by
      simp only [List.mem_cons, List.not_mem_nil, or_false, Prod.mk.injEq] at h
      omega
    obtain ⟨hai, hrest⟩ := reads_takeRest major h
    obtain ⟨hhigh, hlow⟩ := firstByte_bits major ai hmajor hai
    rw [foldl_eq_ofNat hlen] at hrest
    refine (reads_takeByte _).bind ?_
    rwa [hhigh, hlow]

/-- A first byte is its major type and its additional information. -/
theorem firstByte_eq (ib : UInt8) :
    ib >>> 5 < 8 ∧ (ib >>> 5) <<< 5 ||| ib &&& 0x1F = ib ∧ ib &&& 0x1F < 32 := by
  have hall : ∀ b : Fin 256, UInt8.ofNat b >>> 5 < 8 ∧
      (UInt8.ofNat b >>> 5) <<< 5 ||| UInt8.ofNat b &&& 0x1F = UInt8.ofNat b ∧
        UInt8.ofNat b &&& 0x1F < 32 := by
    decide +kernel
  have h := hall ⟨ib.toNat, ib.toNat_lt⟩
  rwa [UInt8.ofNat_toNat] at h

/-- What has been read as a head is one. -/
theorem takes_takeHead : Takes takeHead fun h l => h.1 < 8 ∧ Head h.1 h.2.toNat l := by
  rw [takeHead_eq]
  refine takes_takeByte.bind ?_
  rintro ib _ rfl
  obtain ⟨hmajor, heq, hai⟩ := firstByte_eq ib
  generalize ib >>> 5 = major at hmajor heq ⊢
  generalize ib &&& 0x1F = ai at heq hai ⊢
  subst heq
  -- the four widths of a following argument
  have hwide : ∀ extra : ℕ, (ai, extra) ∈ [((24 : UInt8), 1), (25, 2), (26, 4), (27, 8)] →
      Takes (takeArgument extra >>= fun n => pure (major, n)) fun h l =>
        h.1 < 8 ∧ Head h.1 h.2.toNat ([major <<< 5 ||| ai] ++ l) := by
    intro extra hextra
    refine (takes_takeArgument extra).map ?_
    rintro n l ⟨rfl, rfl⟩
    have hlen : l.length ≤ 8 := by
      simp only [List.mem_cons, List.not_mem_nil, or_false, Prod.mk.injEq] at hextra
      omega
    have hhead : Head major (bigEndian l) ((major <<< 5 ||| ai) :: l) := .wide hextra
    refine ⟨hmajor, ?_⟩
    rwa [foldl_eq_ofNat hlen, UInt64.toNat_ofNat_of_lt' hhead.lt]
  unfold takeRest
  by_cases h31 : ai = 31
  · rw [if_pos h31]
    exact takes_throw _
  rw [if_neg h31]
  by_cases h24 : ai = 24
  · rw [if_pos h24]
    exact hwide 1 (by simp [h24])
  rw [if_neg h24]
  by_cases h25 : ai = 25
  · rw [if_pos h25]
    exact hwide 2 (by simp [h25])
  rw [if_neg h25]
  by_cases h26 : ai = 26
  · rw [if_pos h26]
    exact hwide 4 (by simp [h26])
  rw [if_neg h26]
  by_cases h27 : ai = 27
  · rw [if_pos h27]
    exact hwide 8 (by simp [h27])
  rw [if_neg h27]
  by_cases hgt : ai > 27
  · rw [if_pos hgt]
    exact takes_throw _
  rw [if_neg hgt]
  -- 28 to 30 are refused above, so the argument is in the first byte
  have hlt : ai < 24 := by
    simp only [← UInt8.toNat_inj, gt_iff_lt, UInt8.lt_iff_toNat_lt, UInt8.reduceToNat] at *
    omega
  refine takes_pure ⟨hmajor, ?_⟩
  rw [UInt8.toNat_toUInt64, List.append_nil]
  exact .inline hlt

/-! ### Items -/

/-- Every item is skipped, as long as the levels allowed reach down to the limit. -/
theorem reads_item {limit d levels : ℕ} {l : Bytes} (h : Item limit d l)
    (hlevels : d + levels = limit + 1) : Reads (skipDepth levels) l () := by
  induction h generalizing levels with
  | @scalar d n major h hd hmajor hhead =>
    obtain ⟨levels, rfl⟩ : ∃ k, levels = k + 1 := ⟨levels - 1, by omega⟩
    rcases hmajor with rfl | rfl | rfl
    · exact (reads_head hhead (by decide)).bind_nil (reads_pure ())
    · exact (reads_head hhead (by decide)).bind_nil (reads_pure ())
    · exact (reads_head hhead (by decide)).bind_nil (reads_pure ())
  | @string d major h v hd hmajor hhead =>
    obtain ⟨levels, rfl⟩ : ∃ k, levels = k + 1 := ⟨levels - 1, by omega⟩
    -- the bytes of a string are skipped in one go
    have hbytes := (reads_takeBytes hhead.lt).map fun _ => ()
    rcases hmajor with rfl | rfl
    · exact (reads_head hhead (by decide)).bind hbytes
    · exact (reads_head hhead (by decide)).bind hbytes
  | @array d h items hd hhead hitems ih =>
    obtain ⟨levels, rfl⟩ : ∃ k, levels = k + 1 := ⟨levels - 1, by omega⟩
    have hitem : ∀ b : Unit, ∀ l ∈ items, Reads (skipDepth levels) (id l) () :=
      fun _ l hl => ih l hl (by omega)
    have hloop := reads_loop items hitem ()
    rw [List.flatMap_id] at hloop
    refine (reads_head hhead (by decide)).bind ?_
    change Reads (loop _ (UInt64.ofNat items.length).toNat ()) _ ()
    rwa [UInt64.toNat_ofNat_of_lt' hhead.lt]
  | @map d h entries hd hhead hkeys hvalues ihk ihv =>
    obtain ⟨levels, rfl⟩ : ∃ k, levels = k + 1 := ⟨levels - 1, by omega⟩
    have hentry : ∀ b : Unit, ∀ e ∈ entries,
        Reads (skipDepth levels >>= fun _ => skipDepth levels) (e.1 ++ e.2) () :=
      fun _ e he => (ihk e he (by omega)).bind (ihv e he (by omega))
    have hloop := reads_loop entries hentry ()
    refine (reads_head hhead (by decide)).bind ?_
    change Reads (loop _ (UInt64.ofNat entries.length).toNat ()) _ ()
    rwa [UInt64.toNat_ofNat_of_lt' hhead.lt]
  | @tag d n h l hd hhead hitem ih =>
    obtain ⟨levels, rfl⟩ : ∃ k, levels = k + 1 := ⟨levels - 1, by omega⟩
    exact (reads_head hhead (by decide)).bind (ih (by omega))

/-- A first byte has one of eight major types. -/
theorem major_cases {major : UInt8} (h : major < 8) :
    major = 0 ∨ major = 1 ∨ major = 2 ∨ major = 3 ∨ major = 4 ∨ major = 5 ∨ major = 6 ∨
        major = 7 := by
  simp only [← UInt8.toNat_inj, UInt8.lt_iff_toNat_lt, UInt8.reduceToNat] at *
  omega

/-- Pieces that each consist of a key and a value are the entries of a map. -/
theorem exists_entries {P : Bytes × Bytes → Prop} {items : List Bytes}
    (h : ∀ l ∈ items, ∃ e : Bytes × Bytes, P e ∧ l = e.1 ++ e.2) :
    ∃ entries : List (Bytes × Bytes), entries.length = items.length ∧ (∀ e ∈ entries, P e) ∧
      items.flatten = entries.flatMap fun e => e.1 ++ e.2 := by
  induction items with
  | nil => exact ⟨[], rfl, by simp, rfl⟩
  | cons l items ih =>
    obtain ⟨⟨e, he, rfl⟩, hrest⟩ := List.forall_mem_cons.mp h
    obtain ⟨entries, hlen, hentries, hflat⟩ := ih hrest
    refine ⟨e :: entries, by rw [List.length_cons, hlen, List.length_cons],
      List.forall_mem_cons.mpr ⟨he, hentries⟩, ?_⟩
    rw [List.flatten_cons, hflat, List.flatMap_cons]

/-- What has been skipped is an item. -/
theorem takes_skipDepth (limit levels : ℕ) : ∀ d, d + levels = limit + 1 →
    Takes (skipDepth levels) fun _ l => Item limit d l := by
  induction levels with
  -- no levels are left: only a throw
  | zero => exact fun d hd => takes_throw _
  | succ levels ih =>
    intro d hd
    have hitem := ih (d + 1) (by omega)
    rw [skipDepth]
    refine takes_takeHead.bind ?_
    rintro ⟨major, n⟩ h ⟨hmajor, hhead⟩
    dsimp only at hmajor hhead ⊢
    rcases major_cases hmajor with rfl | rfl | rfl | rfl | rfl | rfl | rfl | rfl
    · refine takes_pure ?_
      rw [List.append_nil]
      exact .scalar (by omega) (by simp) hhead
    · refine takes_pure ?_
      rw [List.append_nil]
      exact .scalar (by omega) (by simp) hhead
    · refine (takes_takeBytes n).map ?_
      rintro v _ ⟨rfl, hlen⟩
      exact .string (by omega) (.inl rfl) (by rwa [hlen])
    · refine (takes_takeBytes n).map ?_
      rintro v _ ⟨rfl, hlen⟩
      exact .string (by omega) (.inr rfl) (by rwa [hlen])
    · refine (takes_loop (fun _ => hitem) n.toNat ()).mono ?_
      rintro _ _ ⟨items, hlen, hitems, rfl⟩
      exact .array (by omega) (by rwa [hlen]) hitems
    · -- an entry is two items, a key and a value
      have hentry : Takes (skipDepth levels >>= fun _ => skipDepth levels) fun _ l =>
          ∃ e : Bytes × Bytes, (Item limit (d + 1) e.1 ∧ Item limit (d + 1) e.2) ∧ l = e.1 ++ e.2 :=
        hitem.bind fun _ k hk => hitem.mono fun _ v hv => ⟨(k, v), ⟨hk, hv⟩, rfl⟩
      refine (takes_loop (fun _ => hentry) n.toNat ()).mono ?_
      rintro _ _ ⟨items, hlen, hitems, rfl⟩
      obtain ⟨entries, hlength, hentries, hflat⟩ := exists_entries hitems
      rw [hflat]
      exact .map (by omega) (by rwa [hlength, hlen]) (fun e he => (hentries e he).1)
        fun e he => (hentries e he).2
    · refine hitem.mono fun _ l hl => ?_
      exact .tag (by omega) hhead hl
    · refine takes_pure ?_
      rw [List.append_nil]
      exact .scalar (by omega) (by simp) hhead

/-- A read that takes these bytes takes them where they are. -/
theorem Reads.apply {α : Type} {m : Read α} {l : Bytes} {a : α} (h : Reads m l a) {input : Bytes}
    {off : ℕ} (hpre : l <+: input.drop off) (hl : l ≠ []) :
    m { input, off } = (.ok a, { input, off := off + l.length }) := by
  obtain ⟨after, hafter⟩ := hpre
  have hoff : off ≤ input.length := by
    by_contra hlt
    rw [List.drop_eq_nil_of_le (by omega)] at hafter
    exact hl (List.append_eq_nil_iff.mp hafter).1
  have hrun := h (input.take off) after
  rwa [List.append_assoc, hafter, List.take_append_drop, List.length_take, min_eq_left hoff] at hrun

/-- **The grammar.** `skip` succeeds exactly when an item of no more than 32 levels starts at the
offset, and it stops behind that item; however it ends, the offset is not past the input. -/
theorem skip_iff (input : Bytes) (off : ℕ) :
    (∀ r, skip { input, off } = (.ok (), r) ↔
      ∃ l, Item 32 0 l ∧ l <+: input.drop off ∧ r = { input, off := off + l.length }) ∧
    (skip { input, off }).2.off ≤ max off input.length := by
  refine ⟨fun r => ⟨fun h => ?_, ?_⟩, ?_⟩
  · obtain ⟨l, hitem, -, hpre, hr⟩ := takes_skipDepth 32 _ 0 rfl _ () r h
    exact ⟨l, hitem, hpre, hr⟩
  · rintro ⟨l, hitem, hpre, rfl⟩
    exact (reads_item hitem rfl).apply hpre hitem.ne_nil
  · have hrun := run_iff.mp (paced_skip.steady { input, off })
    rcases hread : skip { input, off } with ⟨a | e | _, r⟩
    · exact (hrun.1 a r hread).le_max
    · exact (hrun.2.1 e r hread).le_max
    · exact (hrun.2.2 r hread).elim

/-- Two items at the front of the same bytes are the same. -/
theorem item_unique {l l' input : Bytes} (h : WellFormed l) (h' : WellFormed l')
    (hpre : l <+: input) (hpre' : l' <+: input) : l = l' := by
  obtain ⟨limit, hitem⟩ := h
  obtain ⟨limit', hitem'⟩ := h'
  -- both are skipped with as many levels as the deeper one needs
  have hskip : ∀ {limit₀ : ℕ} {l₀ : Bytes}, limit₀ ≤ max limit limit' → Item limit₀ 0 l₀ →
      l₀ <+: input.drop 0 → skipDepth (max limit limit' + 1) { input } =
        (.ok (), { input, off := 0 + l₀.length }) := by
    intro limit₀ l₀ hle hitem₀ hpre₀
    have hdeep : Item (max limit limit') 0 l₀ := hitem₀.mono (by omega)
    exact (reads_item hdeep (by omega)).apply hpre₀ hitem₀.ne_nil
  have hread := hskip (le_max_left _ _) hitem hpre
  have hread' := hskip (le_max_right _ _) hitem' hpre'
  have hlen : l.length = l'.length := by
    have := hread.symm.trans hread'
    simpa using this
  exact (List.prefix_of_prefix_length_le hpre hpre' hlen.le).eq_of_length hlen

end Reader

end Swpasskey.Cbor
