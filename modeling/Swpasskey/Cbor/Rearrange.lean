import Swpasskey.Cbor.Grammar
import Swpasskey.Cbor.Record

/-!
# Rearranged maps

`Respects m R` is about two inputs: what `m` returns on the bytes `l` it also returns on all
bytes `l'` with `R l l'`, wherever they stand. The rules follow the shape of the parsers: a
single value, an array element by element, a record entry by entry.

A record respects `Rearranged`: its entries permuted, their values changed as far as their own
reads allow, entries with unknown keys inserted. The entries change what has been read so far
independently of one another (`Updates`), so the order in which they do makes no difference.
-/

namespace Swpasskey.Cbor

open Proc

/-! ### The relations -/

/-- One item, and the same again. -/
def Same (l l' : Bytes) : Prop := WellFormed l ∧ l' = l

/-- An array whose elements are changed one by one. -/
inductive Elementwise (R : Bytes → Bytes → Prop) : Bytes → Bytes → Prop
  | mk {h h' : Bytes} {items : List (Bytes × Bytes)} (hhead : Head 4 items.length h)
    (hhead' : Head 4 items.length h') (hitems : ∀ e ∈ items, R e.1 e.2) :
    Elementwise R (h ++ items.flatMap Prod.fst) (h' ++ items.flatMap Prod.snd)

/-- An entry of a map: its key, the bytes of the key, and those of the value before and
after. -/
structure MapEntry (κ : Type) where
  key : κ
  keyBytes : Bytes
  before : Bytes
  after : Bytes

/-- What may be done to a map: `Key k l` says that the bytes `l` encode the key `k`, `slot` tells
apart the keys that must be distinct, `known` lists the known keys and what may be done to their
values, and `inserted` the values under unknown keys that may be added. -/
structure MapRules (κ : Type) where
  Key : κ → Bytes → Prop
  slot : κ → κ
  known : List (κ × (Bytes → Bytes → Prop))
  inserted : Bytes → Prop

/-- What may be done to the value under a key: under an unknown key it stays as it is. -/
def MapRules.value {κ : Type} [DecidableEq κ] (R : MapRules κ) (k : κ) : Bytes → Bytes → Prop :=
  (R.known.lookup k).getD Same

/-- A map with distinct keys, and the map after its entries have been permuted, their values
changed and entries inserted. -/
inductive Rearranged {κ : Type} [DecidableEq κ] (R : MapRules κ) : Bytes → Bytes → Prop
  | mk {h h' : Bytes} {entries new result : List (MapEntry κ)} (hhead : Head 5 entries.length h)
    (hkeys : ∀ e ∈ entries, R.Key e.key e.keyBytes)
    (hdistinct : (entries.map fun e => R.slot e.key).Nodup)
    (hvalues : ∀ e ∈ entries, R.value e.key e.before e.after)
    (hnew : ∀ e ∈ new, R.Key e.key e.keyBytes ∧ R.known.lookup e.key = none ∧ R.inserted e.after)
    (hperm : result.Perm (entries ++ new)) (hhead' : Head 5 result.length h') :
    Rearranged R (h ++ entries.flatMap fun e => e.keyBytes ++ e.before)
      (h' ++ result.flatMap fun e => e.keyBytes ++ e.after)

/-- The keys of a map that are signed 64-bit integers, in any encoding. -/
inductive IntKey : ℤ → Bytes → Prop
  | nonneg {n : ℕ} {l : Bytes} (hn : n < 2 ^ 63) (hhead : Head 0 n l) : IntKey n l
  | neg {n : ℕ} {l : Bytes} (hn : n < 2 ^ 63) (hhead : Head 1 n l) : IntKey (-1 - n) l

/-- The keys of a map that are text. -/
inductive TextKey (v : Bytes) : Bytes → Prop
  | mk {h : Bytes} (hhead : Head 3 v.length h) : TextKey v (h ++ v)

theorem IntKey.ne_nil {k : ℤ} {l : Bytes} (h : IntKey k l) : l ≠ [] := by
  cases h with
  | nonneg hn hhead => exact hhead.ne_nil
  | neg hn hhead => exact hhead.ne_nil

theorem Head.majorType_append {major : UInt8} {n : ℕ} {l : Bytes} (h : Head major n l)
    (hmajor : major < 8) (rest : Bytes) : majorType (l ++ rest) = major := by
  cases h with
  | @inline ai h => exact (firstByte_bits major ai hmajor (h.trans (b := 24) (by decide))).1
  | @wide ai l h =>
    refine (firstByte_bits major ai hmajor ?_).1
    simp only [List.mem_cons, List.not_mem_nil, or_false, Prod.mk.injEq] at h
    rcases h with ⟨rfl, -⟩ | ⟨rfl, -⟩ | ⟨rfl, -⟩ | ⟨rfl, -⟩ <;> decide

theorem Head.majorType_eq {major : UInt8} {n : ℕ} {l : Bytes} (h : Head major n l)
    (hmajor : major < 8) : majorType l = major := by
  simpa using h.majorType_append hmajor []

section Rearranged

variable {κ : Type} [DecidableEq κ] {R : MapRules κ} {l l' : Bytes}

theorem Rearranged.ne_nil (h : Rearranged R l l') : l ≠ [] ∧ l' ≠ [] := by
  obtain ⟨hhead, -, -, -, -, -, hhead'⟩ := h
  exact ⟨List.append_ne_nil_of_left_ne_nil hhead.ne_nil _,
    List.append_ne_nil_of_left_ne_nil hhead'.ne_nil _⟩

/-- A map stays a map. -/
theorem Rearranged.majorType (h : Rearranged R l l') : majorType l = 5 ∧ majorType l' = 5 := by
  obtain ⟨hhead, -, -, -, -, -, hhead'⟩ := h
  exact ⟨hhead.majorType_append (by decide) _, hhead'.majorType_append (by decide) _⟩

end Rearranged

namespace Reader

/-! ### Heads of any width -/

theorem reads_headOf_head {major : UInt8} {n : ℕ} {l : Bytes} (h : Head major n l)
    (hmajor : major < 8) :
    Reads (headOf major) l (UInt64.ofNat n) := by
  refine (reads_head h hmajor).bind_nil ?_
  rw [if_neg (not_not.mpr rfl)]
  exact reads_pure _

theorem reads_array_head {n : ℕ} {l : Bytes} (h : Head 4 n l) : Reads array l n := by
  have hread := (reads_headOf_head h (by decide)).map UInt64.toNat
  rwa [UInt64.toNat_ofNat_of_lt' h.lt] at hread

theorem reads_map_head {n : ℕ} {l : Bytes} (h : Head 5 n l) : Reads map l n := by
  have hread := (reads_headOf_head h (by decide)).map UInt64.toNat
  rwa [UInt64.toNat_ofNat_of_lt' h.lt] at hread

theorem reads_textKey {v l : Bytes} (h : TextKey v l) : l ≠ [] ∧ Reads tstr l v := by
  obtain ⟨hhead⟩ := h
  exact ⟨List.append_ne_nil_of_left_ne_nil hhead.ne_nil _,
    (reads_headOf_head hhead (by decide)).bind (reads_takeBytes hhead.lt)⟩

theorem reads_intKey {k : ℤ} {l : Bytes} (h : IntKey k l) : Reads integer l k := by
  -- arguments that fit `int64_t` pass the bound
  have hle : ∀ n : ℕ, n < 2 ^ 63 → ¬ UInt64.ofNat n > 0x7FFFFFFFFFFFFFFF := by
    intro n hn
    rw [gt_iff_lt, UInt64.lt_iff_toNat_lt, UInt64.toNat_ofNat_of_lt' (hn.trans (by decide))]
    exact not_lt.mpr (Nat.le_of_lt_succ hn)
  cases h with
  | @nonneg n l hn hhead =>
    refine (reads_head hhead (by decide)).bind_nil ?_
    rw [if_pos rfl, if_neg (hle n hn), UInt64.toNat_ofNat_of_lt' (hn.trans (by decide))]
    exact reads_pure _
  | @neg n l hn hhead =>
    refine (reads_head hhead (by decide)).bind_nil ?_
    rw [if_neg (show (1 : UInt8) ≠ 0 by decide), if_pos rfl, if_neg (hle n hn),
      UInt64.toNat_ofNat_of_lt' (hn.trans (by decide))]
    exact reads_pure _

/-! ### Peeking -/

theorem peekMajor_apply {l : Bytes} (hl : l ≠ []) {r : Reader} (hpre : l <+: r.input.drop r.off) :
    peekMajor r = (.ok (majorType l), r) := by
  obtain ⟨b, l, rfl⟩ := List.exists_cons_of_ne_nil hl
  obtain ⟨rest, hrest⟩ := hpre
  have hoff : r.off < r.input.length := by
    by_contra hlt
    rw [List.drop_eq_nil_of_le (not_lt.mp hlt)] at hrest
    cases hrest
  rw [List.drop_eq_getElem_cons hoff] at hrest
  obtain ⟨hb, -⟩ := List.cons.inj hrest
  rw [peekMajor, if_neg (not_le.mpr hoff), List.getD_eq_getElem _ _ hoff, ← hb]
  rfl

/-- A look at the major type, and a read by it. -/
theorem reads_peek {α : Type} {f : UInt8 → Read α} {l : Bytes} {a : α} (hl : l ≠ [])
    (h : Reads (f (majorType l)) l a) : Reads (peekMajor >>= f) l a := by
  intro before after
  have hpre : l <+: (before ++ l ++ after).drop before.length := by
    rw [List.append_assoc, List.drop_left]
    exact List.prefix_append l after
  rw [bind_apply_ok (peekMajor_apply (r := ⟨before ++ l ++ after, before.length⟩) hl hpre), h]

/-! ### One read on two inputs -/

section Respects

variable {α β : Type} {m : Read α} {R : Bytes → Bytes → Prop}

/-- What `m` returns on the one bytes it returns on the others. -/
def Respects (m : Read α) (R : Bytes → Bytes → Prop) : Prop :=
  ∀ l l', R l l' → ∀ r a r', l <+: r.input.drop r.off → m r = (.ok a, r') →
    r' = { r with off := r.off + l.length } ∧ Reads m l a ∧ Reads m l' a

theorem Respects.parseWith (h : Respects m R) {l l' : Bytes} (hl : R l l')
    (tail tail' : Bytes) {a : α}
    (hparse : parseWith m (l ++ tail) = .ok a) : parseWith m (l' ++ tail') = .ok a := by
  unfold Reader.parseWith at hparse
  rcases hread : m { input := l ++ tail } with ⟨b | e | _, r⟩ <;> rw [hread] at hparse
  · cases hparse
    obtain ⟨-, -, hreads⟩ := h l l' hl { input := l ++ tail } _ _ (List.prefix_append l tail) hread
    have hrun := hreads [] tail'
    rw [List.nil_append, List.length_nil] at hrun
    rw [Reader.parseWith, hrun]
  · cases hparse
  · cases hparse

theorem Respects.weaken {R' : Bytes → Bytes → Prop} (h : Respects m R)
    (hR : ∀ l l', R' l l' → R l l') :
    Respects m R' :=
  fun l l' hl => h l l' (hR l l' hl)

/-- A value that stays as it is. -/
theorem respects_same (h : Takes m fun _ l => WellFormed l) : Respects m Same := by
  rintro l _ ⟨hl, rfl⟩ r a r' hpre hread
  obtain ⟨l', hl', hreads, hpre', rfl⟩ := h r a r' hread
  obtain rfl := item_unique hl hl' hpre hpre'
  exact ⟨rfl, hreads, hreads⟩

/-- What is made of a value afterwards takes no bytes. -/
theorem Respects.bind {f : α → Read β} (hm : Respects m R)
    (hf : ∀ a, Takes (f a) fun _ l => l = []) : Respects (m >>= f) R := by
  intro l l' hl r b r' hpre h
  rcases hread : m r with ⟨a | e | _, r₁⟩
  · rw [bind_apply_ok hread] at h
    obtain ⟨rfl, hreads, hreads'⟩ := hm l l' hl r a r₁ hpre hread
    obtain ⟨_, rfl, hrest, -, rfl⟩ := hf a _ b r' h
    exact ⟨rfl, hreads.bind_nil hrest, hreads'.bind_nil hrest⟩
  · rw [bind_apply_err hread] at h
    cases h
  · rw [bind_apply_died hread] at h
    cases h

theorem Respects.map (hm : Respects m R) (g : α → β) : Respects (m >>= fun a => pure (g a)) R :=
  hm.bind fun a => takes_pure (a := g a) rfl

/-- Bytes of one major type, read by it. -/
theorem Respects.peek {f : UInt8 → Read α} (hl : ∀ l l', R l l' →
    l ≠ [] ∧ l' ≠ [] ∧ majorType l' = majorType l)
    (hf : ∀ major, Respects (f major) fun l l' => R l l' ∧ majorType l = major) :
    Respects (peekMajor >>= f) R := by
  intro l l' hR r a r' hpre h
  obtain ⟨hne, hne', hmajor⟩ := hl l l' hR
  rw [bind_apply_ok (peekMajor_apply hne hpre)] at h
  obtain ⟨hr, hreads, hreads'⟩ := hf _ l l' ⟨hR, rfl⟩ r a r' hpre h
  exact ⟨hr, reads_peek hne hreads, reads_peek hne' (hmajor ▸ hreads')⟩

theorem takes_require (c : Bool) (e : Status) : Takes (require c e) fun _ l => l = [] := by
  cases c
  · exact takes_throw e
  · exact takes_pure rfl

/-- A prefix of what is left, after its front. -/
theorem prefix_drop {l l' input : Bytes} {off : ℕ} (h : l ++ l' <+: input.drop off) :
    l' <+: input.drop (off + l.length) := by
  obtain ⟨rest, hrest⟩ := h
  have hdrop : (input.drop off).drop l.length = l' ++ rest := by
    rw [← hrest, List.append_assoc, List.drop_left]
  rw [List.drop_drop] at hdrop
  rw [hdrop]
  exact List.prefix_append l' rest

/-- A first part whose bytes are known. -/
theorem Reads.bind_inv {f : α → Read β} {l l' : Bytes} {a : α} (hm : Reads m l a) (hl : l ≠ [])
    {r : Reader} (hpre : l ++ l' <+: r.input.drop r.off) {o : Outcome Status β × Reader}
    (h : (m >>= f) r = o) : f a { r with off := r.off + l.length } = o := by
  have hread := hm.apply ((List.prefix_append l l').trans hpre) hl
  rwa [bind_apply_ok (show m r = _ from hread)] at h

end Respects

/-! ### Values -/

theorem takes_headOf (major : UInt8) : Takes (headOf major) fun n l => Head major n.toNat l := by
  refine takes_takeHead.bind ?_
  rintro ⟨major', n⟩ l ⟨-, hhead⟩
  dsimp only at hhead ⊢
  by_cases h : major' ≠ major
  · rw [if_pos h]
    exact takes_throw _
  · rw [if_neg h]
    refine takes_pure ?_
    rwa [List.append_nil, ← not_not.mp h]

theorem takes_uint : Takes uint fun _ l => WellFormed l :=
  (takes_headOf 0).mono fun _ _ h => .scalar h (.inl rfl)

theorem takes_integer : Takes integer fun _ l => WellFormed l := by
  refine takes_takeHead.bind ?_
  rintro ⟨major, n⟩ l ⟨-, hhead⟩
  dsimp only at hhead ⊢
  have hbound : ∀ k : ℤ, major = 0 ∨ major = 1 → Takes (if n > 0x7FFFFFFFFFFFFFFF
      then throw .invalidCbor else pure k) fun _ l' => WellFormed (l ++ l') := by
    intro k hmajor
    split
    · exact takes_throw _
    · refine takes_pure ?_
      rw [List.append_nil]
      exact .scalar hhead (hmajor.imp_right .inl)
  by_cases h0 : major = 0
  · rw [if_pos h0]
    exact hbound _ (.inl h0)
  rw [if_neg h0]
  by_cases h1 : major = 1
  · rw [if_pos h1]
    exact hbound _ (.inr h1)
  rw [if_neg h1]
  exact takes_throw _

theorem takes_string {major : UInt8} (hmajor : major = 2 ∨ major = 3) :
    Takes (headOf major >>= takeBytes) fun _ l => WellFormed l := by
  refine (takes_headOf major).bind fun n l hhead => (takes_takeBytes n).mono ?_
  rintro v _ ⟨rfl, hlen⟩
  exact ⟨0, .string le_rfl hmajor (by rwa [hlen])⟩

theorem takes_bstr : Takes bstr fun _ l => WellFormed l := takes_string (.inl rfl)

theorem takes_tstr : Takes tstr fun _ l => WellFormed l := takes_string (.inr rfl)

theorem wellFormed_boolean (b : Bool) : WellFormed (encodeBool b) := by
  cases b
  · exact .scalar (.inline (show (20 : UInt8) < 24 by decide)) (.inr (.inr rfl))
  · exact .scalar (.inline (show (21 : UInt8) < 24 by decide)) (.inr (.inr rfl))

theorem takes_boolean : Takes boolean fun b l => l = encodeBool b := by
  refine takes_takeByte.bind ?_
  rintro ib _ rfl
  by_cases h4 : ib = 0xF4
  · rw [if_pos h4, h4]
    exact takes_pure rfl
  rw [if_neg h4]
  by_cases h5 : ib = 0xF5
  · rw [if_pos h5, h5]
    exact takes_pure rfl
  rw [if_neg h5]
  exact takes_throw _

theorem takes_skip : Takes skip fun _ l => WellFormed l :=
  (takes_skipDepth 32 _ 0 rfl).mono fun _ _ h => ⟨32, h⟩

/-! ### Loops -/

section Loops

variable {α β ι : Type} {f : β → Read β}

/-- What reading the bytes `l` does to what has been read so far. -/
def effect (f : β → Read β) (l : Bytes) (b : β) : β :=
  match (f b { input := l }).1 with
  | .ok b' => b'
  | _ => b

theorem effect_eq {l : Bytes} {u : β → β} (h : ∀ b, Reads (f b) l (u b)) : effect f l = u := by
  funext b
  have hread := h b [] []
  rw [List.nil_append, List.append_nil, List.length_nil] at hread
  rw [effect, hread]

/-- One iteration, on the bytes `l` or on `l'`: it does the same to every state, an effect
in `U`. -/
def Acts (f : β → Read β) (l l' : Bytes) (U : (β → β) → Prop) : Prop :=
  ∀ r b b' r', l <+: r.input.drop r.off → f b r = (.ok b', r') →
    ∃ u : β → β, b' = u b ∧ r' = { r with off := r.off + l.length } ∧ U u ∧
      ∀ c, Reads (f c) l (u c) ∧ Reads (f c) l' (u c)

theorem Acts.mono {l l' : Bytes} {U U' : (β → β) → Prop} (h : Acts f l l' U)
    (hU : ∀ u, U u → U' u) :
    Acts f l l' U' := by
  intro r b b' r' hpre hread
  obtain ⟨u, hb, hr, hu, hreads⟩ := h r b b' r' hpre hread
  exact ⟨u, hb, hr, hU u hu, hreads⟩

/-- A value is read, and changes what there is. -/
theorem Respects.acts {m : Read α} {R : Bytes → Bytes → Prop} (hm : Respects m R) (g : α → β → β)
    {l l' : Bytes} (hl : R l l') :
    Acts (fun b => m >>= fun a => pure (g a b)) l l' fun u => ∃ a, u = g a := by
  intro r b b' r' hpre hread
  change (m >>= fun a => pure (g a b)) r = _ at hread
  rcases hfirst : m r with ⟨a | e | _, r₁⟩
  · rw [bind_apply_ok hfirst] at hread
    obtain ⟨rfl, hreads, hreads'⟩ := hm l l' hl r a r₁ hpre hfirst
    cases hread
    exact ⟨g a, rfl, rfl, ⟨a, rfl⟩, fun c => ⟨hreads.map _, hreads'.map _⟩⟩
  · rw [bind_apply_err hfirst] at hread
    cases hread
  · rw [bind_apply_died hfirst] at hread
    cases hread

/-- A loop whose iterations act does what the effects do, one after the other. -/
theorem loop_acts {before after : ι → Bytes} {U : ι → (β → β) → Prop} {xs : List ι}
    (h : ∀ x ∈ xs, Acts f (before x) (after x) (U x)) {r r' : Reader} {b c : β}
    (hpre : xs.flatMap before <+: r.input.drop r.off) (hread : loop f xs.length b r = (.ok c, r')) :
    c = xs.foldl (fun b x => effect f (before x) b) b ∧
      r' = { r with off := r.off + (xs.flatMap before).length } ∧
      ∀ x ∈ xs, U x (effect f (before x)) ∧ ∀ c, Reads (f c) (before x) (effect f (before x) c) ∧
        Reads (f c) (after x) (effect f (before x) c) := by
  induction xs generalizing b r with
  | nil =>
    obtain ⟨rfl, rfl⟩ : b = c ∧ r = r' := by simpa [loop, Proc.pure] using hread
    exact ⟨rfl, rfl, by simp⟩
  | cons x xs ih =>
    obtain ⟨hx, hxs⟩ := List.forall_mem_cons.mp h
    rw [List.flatMap_cons] at hpre
    change (f b >>= loop f xs.length) r = _ at hread
    rcases hfirst : f b r with ⟨b' | e | _, r₁⟩
    · rw [bind_apply_ok hfirst] at hread
      obtain ⟨u, rfl, rfl, hu, hreads⟩ := hx r b b' r₁ ((List.prefix_append _ _).trans hpre) hfirst
      -- the first piece acts by a function of its bytes; the rest by the induction
      have heffect : effect f (before x) = u := effect_eq fun c => (hreads c).1
      obtain ⟨hc, hr', hrest⟩ := ih hxs (prefix_drop hpre) hread
      subst heffect
      refine ⟨hc, ?_, List.forall_mem_cons.mpr ⟨⟨hu, hreads⟩, hrest⟩⟩
      rw [hr', List.flatMap_cons, List.length_append, Nat.add_assoc]
    · rw [bind_apply_err hfirst] at hread
      cases hread
    · rw [bind_apply_died hfirst] at hread
      cases hread

/-- An array respects changes of its elements. -/
theorem respects_array {m : Read α} {R : Bytes → Bytes → Prop} (hm : Respects m R) (g : β → α → β)
    (b : β) : Respects (array >>= fun n => loop (fun b => m >>= fun a => pure (g b a)) n b)
      (Elementwise R) := by
  rintro _ _ ⟨hhead, hhead', hitems⟩ r c r' hpre hread
  rename_i h h' items
  have hacts : ∀ e ∈ items, Acts (fun b => m >>= fun a => pure (g b a)) e.1 e.2 _ :=
    fun e he => hm.acts (fun a b => g b a) (hitems e he)
  have hloop := (reads_array_head hhead).bind_inv hhead.ne_nil hpre hread
  obtain ⟨rfl, rfl, hall⟩ := loop_acts hacts (prefix_drop hpre) hloop
  refine ⟨by rw [List.length_append, Nat.add_assoc], (reads_array_head hhead).bind ?_,
    (reads_array_head hhead').bind ?_⟩
  · exact reads_loop items (fun c e he => ((hall e he).2 c).1) b
  · exact reads_loop items (fun c e he => ((hall e he).2 c).2) b

end Loops

/-! ### Records -/

section Effects

variable {ι κ σ : Type} {fields : List (Field κ σ)}

/-- What an entry under the key `k` can change. -/
def Updates (fields : List (Field κ σ)) (k : κ) (u : σ → σ) : Prop :=
  u = id ∨ ∃ f ∈ fields, f.key = k ∧ ∃ v, u = f.set v

/-- Two fields with different slots change what there is independently. -/
def Field.Commutes (slot : κ → κ) (f g : Field κ σ) : Prop :=
  slot f.key ≠ slot g.key → ∀ v w b, f.set v (g.set w b) = g.set w (f.set v b)

instance (slot : κ → κ) : Std.Symm (Field.Commutes slot : Field κ σ → Field κ σ → Prop) :=
  ⟨fun _ _ h hne v w b => (h hne.symm w v b).symm⟩

/-- Effects of keys with different slots commute. -/
theorem Updates.comm {slot : κ → κ} (hcomm : fields.Pairwise (Field.Commutes slot)) {k k' : κ}
    {u u' : σ → σ} (hu : Updates fields k u) (hu' : Updates fields k' u') (hk : slot k ≠ slot k')
    (b : σ) : u (u' b) = u' (u b) := by
  obtain rfl | ⟨f, hf, rfl, v, rfl⟩ := hu
  · rfl
  obtain rfl | ⟨g, hg, rfl, w, rfl⟩ := hu'
  · rfl
  have hall := hcomm.forall_of_forall fun f _ hne => absurd rfl hne
  exact hall hf hg hk v w b

/-- Effects one after the other: their order makes no difference, nor do those that change
nothing. -/
theorem foldl_effects {act : ι → σ → σ} {slot : ι → κ} {entries new result : List ι}
    (hperm : result.Perm (entries ++ new)) (hdistinct : (entries.map slot).Nodup)
    (hnew : ∀ e ∈ new, act e = id)
    (hcomm : ∀ x ∈ entries, ∀ y ∈ entries, slot x ≠ slot y → ∀ b, act x (act y b) = act y (act x b))
    (b : σ) : result.foldl (fun b e => act e b) b = entries.foldl (fun b e => act e b) b := by
  -- two effects on one slot are the same entry; on two slots they commute
  have hcommute : ∀ x ∈ result, ∀ y ∈ result, ∀ b, act y (act x b) = act x (act y b) := by
    intro x hx y hy b
    rcases List.mem_append.mp (hperm.subset hx) with hx | hx
    · rcases List.mem_append.mp (hperm.subset hy) with hy | hy
      · by_cases hslot : slot y = slot x
        · rw [List.inj_on_of_nodup_map hdistinct hy hx hslot]
        · exact hcomm y hy x hx hslot b
      · rw [hnew y hy, id, id]
    · rw [hnew x hx, id, id]
  have hnone : ∀ b, new.foldl (fun b e => act e b) b = b := fun b =>
    (List.foldl_ext _ (fun b _ => b) b fun b e he => by rw [hnew e he, id]).trans
      (List.foldl_fixed new)
  rw [hperm.foldl_eq' hcommute b, List.foldl_append, hnone]

end Effects

section Records

variable {κ σ : Type} [DecidableEq κ] {key : Read κ} {fields : List (Field κ σ)} {other : Read Unit}

/-- The table of the parser is the table of the rules: the same keys, and each read respects what
may be done to the value. -/
def Follows (fields : List (Field κ σ)) (known : List (κ × (Bytes → Bytes → Prop))) : Prop :=
  List.Forall₂ (fun f e => f.key = e.1 ∧ Respects f.value e.2) fields known

/-- The value under a key is read the same on both, and changes what its field changes. -/
theorem acts_readField {known : List (κ × (Bytes → Bytes → Prop))} (hfields : Follows fields known)
    (hother : Respects other Same) {k : κ} {l l' : Bytes} (hl : (known.lookup k).getD Same l l') :
    Acts (readField other fields k) l l' (Updates fields k) := by
  induction hfields with
  -- an unknown key is skipped and changes nothing
  | nil =>
    refine (hother.acts (fun _ b => b) hl).mono ?_
    rintro u ⟨-, rfl⟩
    exact .inl rfl
  | @cons f e fields known hf hrest ih =>
    obtain ⟨hkey, hrespects⟩ := hf
    by_cases hk : k = e.1
    · have hthis : readField other (f :: fields) k =
          fun b => f.value >>= fun v => pure (f.set v b) :=
        funext fun b => if_pos (hk.trans hkey.symm)
      rw [List.lookup_cons, hk, beq_self_eq_true] at hl
      rw [hthis]
      refine (hrespects.acts f.set hl).mono ?_
      rintro u ⟨v, rfl⟩
      exact .inr ⟨f, List.mem_cons_self, hkey.trans hk.symm, v, rfl⟩
    · have hthis : readField other (f :: fields) k = readField other fields k :=
        funext fun b => if_neg (hkey.symm ▸ hk)
      rw [List.lookup_cons, beq_eq_false_iff_ne.mpr hk] at hl
      rw [hthis]
      refine (ih hl).mono ?_
      rintro u (rfl | ⟨g, hg, hkey, hu⟩)
      · exact .inl rfl
      · exact .inr ⟨g, List.mem_cons_of_mem f hg, hkey, hu⟩

/-- An entry acts as its value does. -/
theorem Acts.entry {k : κ} {kb l l' : Bytes} {U : (σ → σ) → Prop} (hkb : kb ≠ [])
    (hkey : Reads key kb k)
    (h : Acts (readField other fields k) l l' U) :
    Acts (fun b => key >>= fun k => readField other fields k b) (kb ++ l) (kb ++ l') U := by
  intro r b b' r' hpre hread
  obtain ⟨u, hb, rfl, hu, hreads⟩ := h _ b b' r' (prefix_drop hpre) (hkey.bind_inv hkb hpre hread)
  refine ⟨u, hb, by rw [List.length_append, Nat.add_assoc], hu, fun c => ⟨?_, ?_⟩⟩
  · exact hkey.bind (hreads c).1
  · exact hkey.bind (hreads c).2

/-- An unknown key changes nothing. -/
theorem reads_readField_unknown {known : List (κ × (Bytes → Bytes → Prop))}
    (hfields : Follows fields known) {k : κ} {l : Bytes} (hother : Reads other l ())
    (hunknown : known.lookup k = none) (b : σ) : Reads (readField other fields k b) l b := by
  induction hfields with
  | nil => exact hother.map fun _ => b
  | @cons f e fields known hf hrest ih =>
    have hk : k ≠ e.1 := by
      rintro rfl
      simp at hunknown
    rw [List.lookup_cons, beq_eq_false_iff_ne.mpr hk] at hunknown
    rw [readField, if_neg (hf.1.symm ▸ hk)]
    exact ih hunknown

/-- **Records.** A record respects rearrangements, if its table follows the rules and the effects of
keys with different slots commute. -/
theorem respects_record {R : MapRules κ} (hkey : ∀ k l, R.Key k l → l ≠ [] ∧ Reads key l k)
    (hfields : Follows fields R.known) (hother : Respects other Same)
    (hinserted : ∀ l, R.inserted l → Reads other l ())
    (hcomm : fields.Pairwise (Field.Commutes R.slot)) (b : σ) :
    Respects (record key fields other b) (Rearranged R) := by
  rintro _ _ ⟨hhead, hkeys, hdistinct, hvalues, hnew, hperm, hhead'⟩ r c r' hpre hread
  rename_i h h' entries new result
  set f : σ → Read σ := fun b => key >>= fun k => readField other fields k b with hf
  have hacts : ∀ e ∈ entries, Acts f (e.keyBytes ++ e.before) (e.keyBytes ++ e.after)
      (Updates fields e.key) := by
    intro e he
    obtain ⟨hkb, hreads⟩ := hkey _ _ (hkeys e he)
    exact Acts.entry hkb hreads (acts_readField hfields hother (hvalues e he))
  have hloop := (reads_map_head hhead).bind_inv hhead.ne_nil hpre hread
  obtain ⟨rfl, rfl, hall⟩ := loop_acts hacts (prefix_drop hpre) hloop
  refine ⟨by rw [List.length_append, Nat.add_assoc], (reads_map_head hhead).bind ?_, ?_⟩
  · exact reads_loop entries (fun c e he => ((hall e he).2 c).1) b
  -- in the result an entry does the same, and a new one does nothing
  have hsame : ∀ e ∈ entries,
      effect f (e.keyBytes ++ e.after) = effect f (e.keyBytes ++ e.before) :=
    fun e he => effect_eq fun c => ((hall e he).2 c).2
  have hnone : ∀ e ∈ new, ∀ c, Reads (f c) (e.keyBytes ++ e.after) c := by
    intro e he c
    obtain ⟨hkb, hunk, hins⟩ := hnew e he
    exact (hkey _ _ hkb).2.bind (reads_readField_unknown hfields (hinserted _ hins) hunk c)
  have hid : ∀ e ∈ new, effect f (e.keyBytes ++ e.after) = id := fun e he => effect_eq (hnone e he)
  have hreads : ∀ c, ∀ e ∈ result,
      Reads (f c) (e.keyBytes ++ e.after) (effect f (e.keyBytes ++ e.after) c) := by
    intro c e he
    rcases List.mem_append.mp (hperm.subset he) with he | he
    · rw [hsame e he]
      exact ((hall e he).2 c).2
    · rw [hid e he]
      exact hnone e he c
  have hfold := @foldl_effects _ _ _ (fun e => effect f (e.keyBytes ++ e.after)) _ _ _ _ hperm
    hdistinct hid (fun x hx y hy hslot c => Updates.comm hcomm (hsame x hx ▸ (hall x hx).1)
      (hsame y hy ▸ (hall y hy).1) hslot c) b
  have hbefore : entries.foldl (fun b e => effect f (e.keyBytes ++ e.before) b) b =
      entries.foldl (fun b e => effect f (e.keyBytes ++ e.after) b) b :=
    List.foldl_ext _ _ _ fun c e he => by rw [hsame e he]
  rw [hbefore, ← hfold]
  exact (reads_map_head hhead').bind (reads_loop result hreads b)

end Records

end Reader

end Swpasskey.Cbor
