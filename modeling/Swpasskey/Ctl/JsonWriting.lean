import Swpasskey.Ctl.JsonText

/-!
# The writer against the parser

What any nested sequence of calls writes, and what the parser makes of a flat object that was
written: exactly its fields. Commas stand between siblings, and nowhere else, unless an object is
opened by `key` and `begin_object`: `key` has no effect on the flag that `begin_object` looks at.
-/

namespace Swpasskey

namespace JsonWriter

/-- The calls on a writer. -/
inductive Call
  | beginObject
  | endObject
  | key (k : Bytes)
  | beginArray (k : Bytes)
  | endArray
  | object (k : Bytes)
  | str (k v : Bytes)
  | num (k : Bytes) (v : UInt64)
  | boolean (k : Bytes) (v : Bool)

def exec (w : JsonWriter) : Call → JsonWriter
  | .beginObject => w.beginObject
  | .endObject => w.endObject
  | .key k => w.key k
  | .beginArray k => w.beginArray k
  | .endArray => w.endArray
  | .object k => w.object k
  | .str k v => w.str k v
  | .num k v => w.num k v
  | .boolean k v => w.boolean k v

def run (w : JsonWriter) (cs : List Call) : JsonWriter := cs.foldl exec w

/-! ### Nested calls and their texts -/

/-- Texts with commas between them. -/
def commas : List Bytes → Bytes
  | [] => []
  | t :: ts => t ++ ts.flatMap fun t => 0x2C :: t

/-- A call that writes a member, and the member. -/
inductive Leaf : Call → Bytes → Prop
  | str (k v : Bytes) : Leaf (.str k v) (quote k ++ ascii ":" ++ quote v)
  | num (k : Bytes) (v : UInt64) : Leaf (.num k v) (quote k ++ ascii ":" ++ decimal v.toNat)
  | boolean (k : Bytes) (v : Bool) :
      Leaf (.boolean k v) (quote k ++ ascii ":" ++ if v then ascii "true" else ascii "false")

/-- The calls that open an object or an array with what they are to write, and the one that closes
it. -/
inductive Container : List Call → Bytes → Call → Bytes → Prop
  | element : Container [.beginObject] (ascii "\x7b") .endObject (ascii "\x7d")
  | object (k : Bytes) :
      Container [.object k] (quote k ++ ascii ":" ++ ascii "\x7b") .endObject (ascii "\x7d")
  | array (k : Bytes) :
      Container [.beginArray k] (quote k ++ ascii ":" ++ ascii "[") .endArray (ascii "]")
  | keyed (k : Bytes) : Container [.key k, .beginObject] (quote k ++ ascii ":" ++ ascii "\x7b")
      .endObject (ascii "\x7d")

/-- A well-nested sequence of calls, and the texts of the siblings that it is to write: commas stand
between the siblings inside each object and array. -/
inductive Siblings : List Call → List Bytes → Prop
  | nil : Siblings [] []
  | leaf {c : Call} {t : Bytes} {cs : List Call} {ts : List Bytes} (hc : Leaf c t)
      (hcs : Siblings cs ts) : Siblings (c :: cs) (t :: ts)
  | container {o : List Call} {c : Call} {head tail : Bytes} {inner cs : List Call}
      {us ts : List Bytes} (ho : Container o head c tail) (hinner : Siblings inner us)
      (hcs : Siblings cs ts) :
      Siblings (o ++ inner ++ c :: cs) ((head ++ commas us ++ tail) :: ts)

def Call.isKey : Call → Bool
  | key _ => true
  | _ => false

/-- The siblings behind what is there already. -/
def following (first : Bool) (ts : List Bytes) : Bytes :=
  if first then commas ts else ts.flatMap fun t => 0x2C :: t

variable {w : JsonWriter} {b : Bool} {st : List Bool} {c : Call} {t head tail : Bytes}
  {cs o : List Call} {ts us : List Bytes}

theorem run_append (w : JsonWriter) (cs cs' : List Call) : w.run (cs ++ cs') = (w.run cs).run cs' :=
  List.foldl_append

theorem following_cons (first : Bool) (t : Bytes) (ts : List Bytes) : following first (t :: ts) =
    (if first then [] else ascii ",") ++ t ++ following false ts := by
  cases first <;> simp [following, commas, ascii]

theorem length_following (first : Bool) (ts : List Bytes) : (following first ts).length +
    (if first then min 1 ts.length else 0) = ts.flatten.length + ts.length := by
  have hflat : ∀ ts : List Bytes, (ts.flatMap fun t => 0x2C :: t).length =
      ts.flatten.length + ts.length := by
    intro ts
    induction ts with
    | nil => rfl
    | cons t ts ih =>
      simp only [List.flatMap_cons, List.flatten_cons, List.length_append, List.length_cons, ih]
      omega
  cases ts with
  | nil => cases first <;> rfl
  | cons t ts =>
    have hts := hflat ts
    rw [following_cons, following]
    cases first <;> simp [hts, ascii] <;> omega

/-! ### What each call does where something is open -/

theorem sep_of_first (h : w.first = b :: st) :
    w.sep = { out := w.out ++ (if b then [] else ascii ","), first := false :: st } := by
  rw [sep, h]
  rfl

theorem key_of_first (h : w.first = b :: st) (k : Bytes) : w.key k =
    { out := w.out ++ (if b then [] else ascii ",") ++ quote k ++ ascii ":",
      first := false :: st } := by
  rw [key, sep_of_first h]
  rfl

theorem exec_leaf (hc : Leaf c t) (h : w.first = b :: st) :
    w.exec c = { out := w.out ++ ((if b then [] else ascii ",") ++ t), first := false :: st } := by
  cases hc with
  | str k v =>
    rw [exec, str, key_of_first h]
    simp [writeStr, put]
  | num k v =>
    rw [exec, num, key_of_first h]
    simp [put]
  | boolean k v =>
    rw [exec, boolean, key_of_first h]
    simp [put]

/-- An object that is opened by `key` and `begin_object` gets a comma behind its key. -/
theorem run_open (ho : Container o head c tail) : ∃ head',
    head'.length = head.length + o.countP Call.isKey ∧
    ((∀ k, Call.key k ∉ o) → head' = head) ∧
    ∀ (w : JsonWriter) (b : Bool) (st : List Bool), w.first = b :: st →
      w.run o = { out := w.out ++ ((if b then [] else ascii ",") ++ head'),
                  first := true :: false :: st } := by
  cases ho with
  | element =>
    refine ⟨ascii "\x7b", rfl, fun _ => rfl, fun w b st h => ?_⟩
    rw [run, List.foldl_cons, List.foldl_nil, exec, beginObject, sep_of_first h]
    simp [put, pushBack]
  | object k =>
    refine ⟨quote k ++ ascii ":" ++ ascii "\x7b", rfl, fun _ => rfl, fun w b st h => ?_⟩
    rw [run, List.foldl_cons, List.foldl_nil, exec, object, key_of_first h]
    simp [put, pushBack]
  | array k =>
    refine ⟨quote k ++ ascii ":" ++ ascii "[", rfl, fun _ => rfl, fun w b st h => ?_⟩
    rw [run, List.foldl_cons, List.foldl_nil, exec, beginArray, key_of_first h]
    simp [put, pushBack]
  | keyed k =>
    refine ⟨quote k ++ ascii ":" ++ ascii "," ++ ascii "\x7b", ?_, ?_, fun w b st h => ?_⟩
    · have hcomma : (ascii ",").length = 1 := rfl
      have hkey : [Call.key k, Call.beginObject].countP Call.isKey = 1 := rfl
      simp only [List.length_append, hcomma, hkey]
      omega
    · exact fun hno => absurd List.mem_cons_self (hno k)
    · change (w.key k).beginObject = _
      rw [key_of_first h, beginObject, sep_of_first rfl]
      simp [put, pushBack]

theorem exec_close (ho : Container o head c tail) (h : w.first = b :: st) :
    w.exec c = { out := w.out ++ tail, first := st } := by
  cases ho <;> simp [exec, endObject, endArray, put, popBack, h]

/-! ### What a well-nested sequence writes -/

/-- Where something is open, siblings are written behind what is there with commas between them;
each object that is opened by `key` and `begin_object` makes its text one byte longer than it should
be. -/
theorem Siblings.run (h : Siblings cs ts) : ∃ us : List Bytes, us.length = ts.length ∧
    us.flatten.length = ts.flatten.length + cs.countP Call.isKey ∧
    ((∀ k, Call.key k ∉ cs) → us = ts) ∧
    ∀ (w : JsonWriter) (b : Bool) (st : List Bool), w.first = b :: st →
      w.run cs = { out := w.out ++ following b us, first := (b && us.isEmpty) :: st } := by
  induction h with
  | nil =>
    refine ⟨[], rfl, rfl, fun _ => rfl, fun w b st h => ?_⟩
    obtain ⟨out, first⟩ := w
    subst h
    cases b <;> simp [JsonWriter.run, following, commas]
  | @leaf c t cs ts hc _ ih =>
    obtain ⟨us, hlen, hflat, heq, hrun⟩ := ih
    have hkey : Call.isKey c = false := by cases hc <;> rfl
    refine ⟨t :: us, ?_, ?_, ?_, fun w b st h => ?_⟩
    · rw [List.length_cons, List.length_cons, hlen]
    · rw [List.flatten_cons, List.flatten_cons, List.length_append, List.length_append, hflat,
        List.countP_cons_of_neg (by rw [hkey]; exact Bool.false_ne_true), Nat.add_assoc]
    · exact fun hno => by rw [heq fun k hk => hno k (List.mem_cons_of_mem c hk)]
    · change (w.exec c).run cs = _
      rw [exec_leaf hc h, hrun _ false st rfl, following_cons]
      simp
  | @container o c head tail inner cs us ts ho _ _ ihinner ihcs =>
    obtain ⟨head', hhead, hopeneq, hopen⟩ := run_open ho
    obtain ⟨us', hlen', hflat', heq', hrun'⟩ := ihinner
    obtain ⟨vs, hlen, hflat, heq, hrun⟩ := ihcs
    have hkey : Call.isKey c = false := by cases ho <;> rfl
    refine ⟨(head' ++ commas us' ++ tail) :: vs, ?_, ?_, ?_, fun w b st h => ?_⟩
    · rw [List.length_cons, List.length_cons, hlen]
    · have hinner := length_following true us'
      have hinner' := length_following true us
      simp only [following, if_true] at hinner hinner'
      simp only [List.flatten_cons, List.length_append, List.countP_append, List.countP_cons, hkey]
      rw [hlen'] at hinner
      simp only [Bool.false_eq_true, if_false]
      omega
    · intro hno
      rw [hopeneq fun k hk => hno k (by simp [hk]), heq' fun k hk => hno k (by simp [hk]),
        heq fun k hk => hno k (by simp [hk])]
    · rw [run_append, run_append, hopen w b st h, hrun' _ true (false :: st) rfl]
      change (JsonWriter.exec _ c).run cs = _
      rw [exec_close ho rfl, hrun _ false st rfl, following_cons b]
      simp [following]

/-- The text of an object, of which all siblings inside it are written. -/
theorem run_object (h : Siblings cs ts) : ∃ us : List Bytes,
    (commas us).length = (commas ts).length + cs.countP Call.isKey ∧
    ((∀ k, Call.key k ∉ cs) → us = ts) ∧
    (run {} (.beginObject :: (cs ++ [.endObject]))).finish =
      ascii "\x7b" ++ commas us ++ ascii "\x7d" := by
  obtain ⟨us, hlen, hflat, heq, hrun⟩ := h.run
  have hus := length_following true us
  have hts := length_following true ts
  simp only [following, if_true] at hus hts
  refine ⟨us, by rw [hlen] at hus; omega, heq, ?_⟩
  change ((beginObject {}).run (cs ++ [.endObject])).finish = _
  rw [run_append, hrun _ true [] rfl]
  rfl

/-- Commas stand exactly between siblings where no object is opened by `key` and `begin_object`. -/
theorem finish_eq_commas_iff (h : Siblings cs ts) :
    (run {} (.beginObject :: (cs ++ [.endObject]))).finish =
      ascii "\x7b" ++ commas ts ++ ascii "\x7d" ↔ ∀ k, Call.key k ∉ cs := by
  obtain ⟨us, hlen, heq, hrun⟩ := run_object h
  rw [hrun]
  constructor
  · intro hout k hk
    have hcommas : commas us = commas ts := List.append_cancel_left (List.append_cancel_right hout)
    have hcount : 0 < cs.countP Call.isKey := List.countP_pos_iff.mpr ⟨_, hk, rfl⟩
    rw [hcommas] at hlen
    omega
  · intro hno
    rw [heq hno]

end JsonWriter

open JsonWriter Json

/-! ### Flat objects -/

/-- A value that a flat object may have. -/
inductive JsonScalar
  | str (v : Bytes)
  | num (v : UInt64)
  | boolean (v : Bool)

namespace JsonScalar

/-- The text that the parser keeps for the value. -/
def text : JsonScalar → Bytes
  | str v => v
  | num v => decimal v.toNat
  | boolean v => if v then ascii "true" else ascii "false"

/-- The call that writes a field with this value. -/
def call (k : Bytes) : JsonScalar → Call
  | str v => .str k v
  | num v => .num k v
  | boolean v => .boolean k v

/-- The field as it stands in the object. -/
def member (k : Bytes) : JsonScalar → FlatMember
  | str v => { key := k.flatMap escape, value := .str (v.flatMap escape) }
  | num v => { key := k.flatMap escape, value := .token (decimal v.toNat) }
  | boolean v =>
    { key := k.flatMap escape, value := .token (if v then ascii "true" else ascii "false") }

end JsonScalar

/-- The flat object with these fields. -/
def writeFlat (fs : List (Bytes × JsonScalar)) : Bytes :=
  (run {} (.beginObject :: (fs.map (fun f => f.2.call f.1) ++ [.endObject]))).finish

section Flat

variable {fs : List (Bytes × JsonScalar)}

/-- Every byte is read back from what is written for it. -/
theorem reads_escape (c : UInt8) : Reads (escape c) [c] := by
  have hquad : ∀ c : UInt8, c < 0x20 →
      hexQuad [0x30, 0x30, hexChar (c >>> 4), hexChar (c &&& 0x0F)] = some c.toNat ∧
      encodeUnit c.toNat = [c] := forall_byte (by decide +kernel)
  rw [escape]
  split_ifs with hq hb hn hr ht hctl
  · exact hq ▸ reads_unescape (by decide) rfl
  · exact hb ▸ reads_unescape (by decide) rfl
  · exact hn ▸ reads_unescape (by decide) rfl
  · exact hr ▸ reads_unescape (by decide) rfl
  · exact ht ▸ reads_unescape (by decide) rfl
  · obtain ⟨hv, henc⟩ := hquad c hctl
    exact henc ▸ reads_hex hv
  · exact reads_byte hq hb

theorem reads_escaped (v : Bytes) : Reads (v.flatMap escape) v := by
  have hreads := Reads.flatMap (f := escape) (g := fun c => [c]) fun c (_ : c ∈ v) => reads_escape c
  rwa [List.flatMap_singleton'] at hreads

theorem newline_notMem_escaped (v : Bytes) : (0x0A : UInt8) ∉ v.flatMap escape := by
  have hbyte : ∀ c : UInt8, (0x0A : UInt8) ∉ escape c := forall_byte (by decide +kernel)
  rw [List.mem_flatMap]
  rintro ⟨c, _, hc⟩
  exact hbyte c hc

theorem digit_of_mem_decimal {v : ℕ} {c : UInt8} (h : c ∈ decimal v) : 0x30 ≤ c ∧ c ≤ 0x39 := by
  rw [decimal] at h
  split_ifs at h
  · rw [show c = 0x30 from List.mem_singleton.mp h]
    decide
  · rw [List.mem_reverse, List.mem_map] at h
    obtain ⟨d, hd, rfl⟩ := h
    have hlt := Nat.digits_lt_base (by decide) hd
    interval_cases d <;> decide

theorem decimal_ne_nil (v : ℕ) : decimal v ≠ [] := by
  rw [decimal]
  split_ifs with h
  · decide
  · intro hnil
    rw [List.reverse_eq_nil_iff, List.map_eq_nil_iff, Nat.digits_eq_nil_iff_eq_zero] at hnil
    exact h hnil

theorem isToken_decimal (v : ℕ) : IsToken (decimal v) where
  ne_nil := decimal_ne_nil v
  head c hc := by
    have hbyte : ∀ c : UInt8, 0x30 ≤ c ∧ c ≤ 0x39 →
        c ≠ 0x22 ∧ c ≠ 0x7B ∧ c ≠ 0x5B ∧ isWs c = false := forall_byte (by decide +kernel)
    exact hbyte c (digit_of_mem_decimal (List.mem_of_mem_head? hc))
  goesOn c hc := by
    have hbyte : ∀ c : UInt8, 0x30 ≤ c ∧ c ≤ 0x39 → endsToken c = false :=
      forall_byte (by decide +kernel)
    exact hbyte c (digit_of_mem_decimal hc)

theorem isToken_boolean (v : Bool) : IsToken (if v then ascii "true" else ascii "false") := by
  cases v <;> exact ⟨by decide +kernel, by decide +kernel, by decide +kernel⟩

namespace JsonScalar

theorem leaf (k : Bytes) (v : JsonScalar) : Leaf (v.call k) (v.member k).bytes := by
  have hbytes : ∀ x : FlatValue, ({ key := k.flatMap escape, value := x } : FlatMember).bytes =
      quote k ++ ascii ":" ++ x.bytes := by
    intro x
    simp [FlatMember.bytes, quote, ascii]
  cases v with
  | str v =>
    rw [member, hbytes]
    exact Leaf.str k v
  | num v =>
    rw [member, hbytes]
    exact Leaf.num k v
  | boolean v =>
    rw [member, hbytes]
    exact Leaf.boolean k v

theorem wellFormed (k : Bytes) (v : JsonScalar) : (v.member k).WellFormed := by
  have hno : ∀ c ∈ ([] : Bytes), isWs c = true := fun c hc => absurd hc List.not_mem_nil
  cases v with
  | str v => exact ⟨hno, hno, hno, hno, fun t ht => nomatch ht⟩
  | num v => exact ⟨hno, hno, hno, hno, fun t ht => FlatValue.token.inj ht ▸ isToken_decimal _⟩
  | boolean v => exact ⟨hno, hno, hno, hno, fun t ht => FlatValue.token.inj ht ▸ isToken_boolean v⟩

theorem reads (k : Bytes) (v : JsonScalar) : (v.member k).Reads (k, v.text) := by
  cases v with
  | str v => exact ⟨reads_escaped k, reads_escaped v⟩
  | num v => exact ⟨reads_escaped k, (List.append_nil _).symm⟩
  | boolean v => exact ⟨reads_escaped k, (List.append_nil _).symm⟩

theorem newline_notMem_member (k : Bytes) (v : JsonScalar) :
    (0x0A : UInt8) ∉ (v.member k).bytes := by
  have hk := newline_notMem_escaped k
  have htoken : ∀ t, IsToken t → (0x0A : UInt8) ∉ t := fun t ht h => nomatch ht.goesOn _ h
  cases v with
  | str v => simp [member, FlatMember.bytes, FlatValue.bytes, hk, newline_notMem_escaped v]
  | num v => simp [member, FlatMember.bytes, FlatValue.bytes, hk, htoken _ (isToken_decimal _)]
  | boolean v =>
    have hv := htoken _ (isToken_boolean v)
    simp only [member, FlatMember.bytes, FlatValue.bytes]
    simp [hk, hv]

end JsonScalar

/-- A flat object as it is written. -/
theorem writeFlat_eq (fs : List (Bytes × JsonScalar)) : writeFlat fs =
    0x7B :: (FlatMember.join (fs.map fun f => f.2.member f.1) ++ [0x7D]) := by
  have hsiblings : Siblings (fs.map fun f => f.2.call f.1)
      (fs.map fun f => (f.2.member f.1).bytes) := by
    induction fs with
    | nil => exact .nil
    | cons f fs ih => exact .leaf (JsonScalar.leaf f.1 f.2) ih
  have hno : ∀ k, Call.key k ∉ fs.map fun f => f.2.call f.1 := by
    intro k hk
    obtain ⟨f, -, hf⟩ := List.mem_map.mp hk
    rcases f with ⟨k', _ | _ | _⟩ <;> cases hf
  have hjoin : commas (fs.map fun f => (f.2.member f.1).bytes) =
      FlatMember.join (fs.map fun f => f.2.member f.1) := by
    cases fs with
    | nil => rfl
    | cons f fs => simp [commas, FlatMember.join, List.flatMap_map]
  rw [writeFlat, (finish_eq_commas_iff hsiblings).mpr hno, hjoin, List.append_assoc]
  rfl

theorem newline_notMem_writeFlat (fs : List (Bytes × JsonScalar)) :
    (0x0A : UInt8) ∉ writeFlat fs := by
  have hjoin : (0x0A : UInt8) ∉ FlatMember.join (fs.map fun f => f.2.member f.1) := by
    cases fs with
    | nil => exact List.not_mem_nil
    | cons f fs =>
      simp [FlatMember.join, JsonScalar.newline_notMem_member, List.flatMap_map]
  rw [writeFlat_eq]
  simp [hjoin]

/-- The parser makes of a flat object exactly its fields. -/
theorem parseFlatJson_writeFlat (h : (fs.map Prod.fst).Nodup) : parseFlatJson (writeFlat fs) =
    { fields := fs.map fun f => (f.1, f.2.text), ok := true } := by
  have hwf : ∀ m ∈ fs.map (fun f => f.2.member f.1), m.WellFormed := by
    intro m hm
    obtain ⟨f, -, rfl⟩ := List.mem_map.mp hm
    exact JsonScalar.wellFormed f.1 f.2
  have hreads : List.Forall₂ FlatMember.Reads (fs.map fun f => f.2.member f.1)
      (fs.map fun f => (f.1, f.2.text)) := by
    rw [List.forall₂_map_left_iff, List.forall₂_map_right_iff, List.forall₂_same]
    exact fun f _ => JsonScalar.reads f.1 f.2
  rw [writeFlat_eq]
  rcases eq_or_ne fs [] with rfl | hne
  · decide +kernel
  · have hne' : fs.map (fun f => f.2.member f.1) ≠ [] := by simpa using hne
    rw [← List.nil_append (0x7B :: _), parseFlatJson_object (by simp) hwf hne' [0x7D],
      parseMembers_of_reads hwf hreads hne', setFields_of_nodup]
    rwa [List.map_map]

variable {cs : List Call} {ts : List Bytes}

/-- The writer and the parser agree on flat objects, and commas stand exactly between siblings where
no object is opened by `key` and `begin_object`. -/
theorem json_agree_iff (hfs : (fs.map Prod.fst).Nodup) (hcs : Siblings cs ts) :
    ((0x0A : UInt8) ∉ writeFlat fs ∧
      parseFlatJson (writeFlat fs) = { fields := fs.map fun f => (f.1, f.2.text), ok := true } ∧
      (run {} (.beginObject :: (cs ++ [.endObject]))).finish =
        ascii "\x7b" ++ commas ts ++ ascii "\x7d") ↔
    ∀ k, Call.key k ∉ cs := by
  constructor
  · rintro ⟨-, -, hcommas⟩
    exact (finish_eq_commas_iff hcs).mp hcommas
  · intro hno
    exact ⟨newline_notMem_writeFlat fs, parseFlatJson_writeFlat hfs,
      (finish_eq_commas_iff hcs).mpr hno⟩

/-- A flat object with a quote and a newline in it, and an object that holds another one. -/
theorem json_agree_iff_nested :
    (0x0A : UInt8) ∉ writeFlat [([0x73], .str [0x61, 0x22, 0x0A]), ([0x6E], .num 42)] ∧
    parseFlatJson (writeFlat [([0x73], .str [0x61, 0x22, 0x0A]), ([0x6E], .num 42)]) =
      { fields := [([0x73], [0x61, 0x22, 0x0A]), ([0x6E], decimal 42)], ok := true } ∧
    (run {} (.beginObject ::
        ([.object [0x6F], .num [0x78] 1, .endObject] ++ [.endObject]))).finish =
      ascii "\x7b" ++ commas [quote [0x6F] ++ ascii ":" ++ ascii "\x7b" ++
        commas [quote [0x78] ++ ascii ":" ++ decimal 1] ++ ascii "\x7d"] ++ ascii "\x7d" :=
  (json_agree_iff (by decide) (.container (.object _) (.leaf (.num _ _) .nil) .nil)).mpr
    fun k hk => by simp at hk

/-- `begin_object().key("a").begin_object().end_object().end_object()` writes a comma behind the
key. -/
theorem not_json_agree_key : ¬ ∀ cs ts, Siblings cs ts →
    (run {} (.beginObject :: (cs ++ [.endObject]))).finish =
      ascii "\x7b" ++ commas ts ++ ascii "\x7d" := by
  intro h
  have hkeyed := h _ _ (.container (.keyed (ascii "a")) .nil .nil)
  exact absurd hkeyed (by decide +kernel)

end Flat

end Swpasskey
