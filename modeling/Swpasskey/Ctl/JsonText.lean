import Mathlib.Data.List.DropRight
import Swpasskey.Ctl.Json

/-!
# What the parser reads

`Reads x d` says that the text `x`, inside a string literal, stands for the bytes `d`, whatever is
around it, and `Fails x` that it stands for nothing. Both go through concatenation, so that a
literal is read piece by piece. A flat object is a list of members with whitespace wherever it may
be; it is accepted when all its literals are read, and rejected when one of them fails.
-/

namespace Swpasskey

namespace Json

/-! ### Literals -/

/-- Inside a literal, the text stands for these bytes. -/
def Reads (x d : Bytes) : Prop :=
  ∀ out rest, parseChars out (x ++ rest) = parseChars (out ++ d) rest

/-- Inside a literal, the text is an error. -/
def Fails (x : Bytes) : Prop := ∀ out rest, parseChars out (x ++ rest) = none

section Literals

variable {x y d e : Bytes} {c : UInt8}

theorem Reads.nil : Reads [] [] := fun out rest => by rw [List.nil_append, List.append_nil]

theorem Reads.append (hx : Reads x d) (hy : Reads y e) : Reads (x ++ y) (d ++ e) := by
  intro out rest
  rw [List.append_assoc, hx, hy, List.append_assoc]

theorem Reads.fails (hx : Reads x d) (hy : Fails y) : Fails (x ++ y) := fun out rest => by
  rw [List.append_assoc, hx, hy]

theorem Fails.append (hx : Fails x) (y : Bytes) : Fails (x ++ y) := fun out rest => by
  rw [List.append_assoc, hx]

theorem Reads.flatMap {α : Type} {f g : α → Bytes} {l : List α} (h : ∀ a ∈ l, Reads (f a) (g a)) :
    Reads (l.flatMap f) (l.flatMap g) := by
  induction l with
  | nil => exact Reads.nil
  | cons a l ih =>
    rw [List.flatMap_cons, List.flatMap_cons]
    exact (h a List.mem_cons_self).append (ih fun b hb => h b (List.mem_cons_of_mem a hb))

/-- One turn of the loop at a byte that is neither a quote nor a backslash. -/
theorem reads_byte (hq : c ≠ 0x22) (hb : c ≠ 0x5C) : Reads [c] [c] := fun out rest => by
  rw [List.singleton_append, parseChars.eq_def]
  simp only [if_neg hq, if_neg hb]

/-- One turn of the loop at an escape of one character. -/
theorem parseChars_unescape (hu : c ≠ 0x75) (out rest : Bytes) :
    parseChars out (0x5C :: c :: rest) =
      (unescape c).bind fun b => parseChars (out ++ [b]) rest := by
  rw [parseChars.eq_def]
  simp only [if_neg hu, if_neg (show (0x5C : UInt8) ≠ 0x22 by decide), if_true]
  cases unescape c <;> rfl

theorem reads_unescape {b : UInt8} (hu : c ≠ 0x75) (h : unescape c = some b) :
    Reads [0x5C, c] [b] := fun out rest => by
  rw [List.cons_append, List.singleton_append, parseChars_unescape hu, h]
  rfl

theorem fails_unescape (hu : c ≠ 0x75) (h : unescape c = none) : Fails [0x5C, c] := by
  intro out rest
  rw [List.cons_append, List.singleton_append, parseChars_unescape hu, h]
  rfl

theorem reads_hex {h₁ h₂ h₃ h₄ : UInt8} {v : ℕ} (h : hexQuad [h₁, h₂, h₃, h₄] = some v) :
    Reads [0x5C, 0x75, h₁, h₂, h₃, h₄] (encodeUnit v) := fun out rest => by
  simp only [List.cons_append, List.nil_append]
  rw [parseChars.eq_def]
  simp only [if_neg (show (0x5C : UInt8) ≠ 0x22 by decide), if_true, h]

theorem parseString_of_reads (h : Reads x d) (rest : Bytes) :
    parseString (0x22 :: (x ++ 0x22 :: rest)) = some (d, rest) := by
  rw [parseString, if_pos rfl, h, parseChars.eq_def]
  simp only [if_true, List.nil_append]

theorem parseString_of_fails (h : Fails x) (rest : Bytes) :
    parseString (0x22 :: (x ++ 0x22 :: rest)) = none := by
  rw [parseString, if_pos rfl, h]

end Literals

/-! ### Flat objects -/

/-- A string literal, by what is between its quotes, or a number or a name. -/
inductive FlatValue
  | str (x : Bytes)
  | token (t : Bytes)

def FlatValue.bytes : FlatValue → Bytes
  | str x => 0x22 :: x ++ [0x22]
  | token t => t

/-- A token begins with what neither starts another value nor is skipped, and goes on to the next
separator. -/
structure IsToken (t : Bytes) : Prop where
  ne_nil : t ≠ []
  head : ∀ c ∈ t.head?, c ≠ 0x22 ∧ c ≠ 0x7B ∧ c ≠ 0x5B ∧ isWs c = false
  goesOn : ∀ c ∈ t, endsToken c = false

/-- A member with the whitespace in it: around the key, and around the value. -/
structure FlatMember where
  beforeKey : Bytes := []
  key : Bytes
  afterKey : Bytes := []
  beforeValue : Bytes := []
  value : FlatValue
  afterValue : Bytes := []

namespace FlatMember

def bytes (m : FlatMember) : Bytes :=
  m.beforeKey ++ (0x22 :: (m.key ++ 0x22 :: (m.afterKey ++ 0x3A :: (m.beforeValue ++
    (m.value.bytes ++ m.afterValue)))))

/-- The whitespace is whitespace, and a token is one. -/
structure WellFormed (m : FlatMember) : Prop where
  beforeKey : ∀ c ∈ m.beforeKey, isWs c = true
  afterKey : ∀ c ∈ m.afterKey, isWs c = true
  beforeValue : ∀ c ∈ m.beforeValue, isWs c = true
  afterValue : ∀ c ∈ m.afterValue, isWs c = true
  token : ∀ t, m.value = .token t → IsToken t

/-- The value that is read: of a token, with the whitespace that does not end it. -/
def ReadsValue (m : FlatMember) (v : Bytes) : Prop :=
  match m.value with
  | .str x => Json.Reads x v
  | .token t => v = t ++ m.afterValue.takeWhile (!endsToken ·)

/-- The key and the value that are read. -/
def Reads (m : FlatMember) (kv : Bytes × Bytes) : Prop :=
  Json.Reads m.key kv.1 ∧ m.ReadsValue kv.2

/-- One of the literals is an error, and no other before it. -/
def Fails (m : FlatMember) : Prop :=
  Json.Fails m.key ∨
    (∃ k, Json.Reads m.key k) ∧ ∃ x, m.value = .str x ∧ Json.Fails x

end FlatMember

/-- The members with commas between them. -/
def FlatMember.join : List FlatMember → Bytes
  | [] => []
  | m :: ms => m.bytes ++ ms.flatMap fun m => 0x2C :: m.bytes

section Members

variable {m : FlatMember} {ms : List FlatMember} {kv : Bytes × Bytes} {kvs : List (Bytes × Bytes)}
  {l x rest : Bytes} {c : UInt8} {fields : List (Bytes × Bytes)}

theorem skipWs_append (hl : ∀ b ∈ l, isWs b = true) (rest : Bytes) :
    skipWs (l ++ rest) = skipWs rest :=
  List.dropWhile_append_of_pos hl

theorem skipWs_cons (hc : isWs c = false) (l : Bytes) : skipWs (c :: l) = c :: l := by
  rw [skipWs, List.dropWhile_cons_of_neg (by rw [hc]; exact Bool.false_ne_true)]

theorem parseMember_skipWs (l : Bytes) : parseMember (skipWs l) = parseMember l := by
  have hidem : skipWs (skipWs l) = skipWs l := by
    rw [skipWs, skipWs, List.dropWhile_idempotent]
  rw [parseMember, parseMember, hidem]

/-- What follows a value: a comma or the closing brace. -/
def Follows (c : UInt8) : Prop := c = 0x2C ∨ c = 0x7D

theorem Follows.isWs_eq (h : Follows c) : isWs c = false := by
  rcases h with rfl | rfl <;> rfl

theorem Follows.endsToken_eq (h : Follows c) : endsToken c = true := by
  rcases h with rfl | rfl <;> rfl

theorem takeWhile_append_cons {p : UInt8 → Bool} (hc : p c = false) (l rest : Bytes) :
    (l ++ c :: rest).takeWhile p = l.takeWhile p := by
  rw [List.takeWhile_append]
  split_ifs with h
  · rw [List.takeWhile_cons_of_neg (by rw [hc]; exact Bool.false_ne_true), List.append_nil]
    exact ((List.takeWhile_prefix p).eq_of_length h).symm
  · rfl

theorem parseValue_str {x d : Bytes} (h : Reads x d) (l : Bytes) :
    parseValue (0x22 :: (x ++ 0x22 :: l)) = .ok (d, l) := by
  rw [parseValue, List.head?_cons, if_pos rfl, parseString_of_reads h]

theorem parseValue_str_fails {x : Bytes} (h : Fails x) (l : Bytes) :
    parseValue (0x22 :: (x ++ 0x22 :: l)) = .error (ascii "bad string") := by
  rw [parseValue, List.head?_cons, if_pos rfl, parseString_of_fails h]

/-- A token is read to the next separator, which may be behind some of the whitespace. -/
theorem parseValue_token {t after : Bytes} (ht : IsToken t) (hc : Follows c) (rest : Bytes) :
    parseValue (t ++ (after ++ c :: rest)) = .ok (t ++ after.takeWhile (!endsToken ·),
      after.dropWhile (!endsToken ·) ++ c :: rest) := by
  have htake : (t ++ (after ++ c :: rest)).takeWhile (!endsToken ·) =
      t ++ after.takeWhile (!endsToken ·) := by
    rw [List.takeWhile_append_of_pos fun b hb => by rw [ht.goesOn b hb]; rfl,
      takeWhile_append_cons (by rw [hc.endsToken_eq]; rfl)]
  have hdrop : (t ++ (after ++ c :: rest)).drop (t ++ after.takeWhile (!endsToken ·)).length =
      after.dropWhile (!endsToken ·) ++ c :: rest := by
    have hsplit : t ++ (after ++ c :: rest) = (t ++ after.takeWhile (!endsToken ·)) ++
        (after.dropWhile (!endsToken ·) ++ c :: rest) := by
      rw [List.append_assoc t, ← List.append_assoc (after.takeWhile _),
        List.takeWhile_append_dropWhile]
    rw [hsplit, List.drop_left]
  obtain ⟨a, t', rfl⟩ := List.exists_cons_of_ne_nil ht.ne_nil
  obtain ⟨hquote, hbrace, hbracket, -⟩ := ht.head a rfl
  have hhead : ∀ b, a ≠ b → (a :: t' ++ (after ++ c :: rest)).head? ≠ some b :=
    fun b hb h => hb (Option.some.inj h)
  rw [parseValue, if_neg (hhead _ hquote), if_neg (not_or.mpr ⟨hhead _ hbrace, hhead _ hbracket⟩)]
  dsimp only
  rw [htake, hdrop, if_neg (List.append_ne_nil_of_left_ne_nil ht.ne_nil _)]

/-- A well-formed value that is read, in front of what follows it. -/
theorem parseValue_of_reads {v : Bytes} (hm : m.WellFormed) (hv : m.ReadsValue v) (hc : Follows c)
    (rest : Bytes) : ∃ l, parseValue (m.value.bytes ++ (m.afterValue ++ c :: rest)) = .ok (v, l) ∧
      skipWs l = c :: rest := by
  rcases hval : m.value with x | t
  · rw [FlatMember.ReadsValue, hval] at hv
    refine ⟨m.afterValue ++ c :: rest, ?_, ?_⟩
    · rw [FlatValue.bytes, List.append_assoc, List.singleton_append]
      exact parseValue_str hv _
    · rw [skipWs_append hm.afterValue, skipWs_cons hc.isWs_eq]
  · rw [FlatMember.ReadsValue, hval] at hv
    subst hv
    refine ⟨_, parseValue_token (hm.token t hval) hc rest, ?_⟩
    rw [skipWs_append fun b hb => hm.afterValue b ((List.dropWhile_suffix _).subset hb),
      skipWs_cons hc.isWs_eq]

/-- A value does not begin with whitespace. -/
theorem skipWs_value (hm : m.WellFormed) (l : Bytes) :
    skipWs (m.value.bytes ++ l) = m.value.bytes ++ l := by
  rcases hval : m.value with x | t
  · exact skipWs_cons rfl _
  · have ht := hm.token t hval
    obtain ⟨a, t, rfl⟩ := List.exists_cons_of_ne_nil ht.ne_nil
    exact skipWs_cons (ht.head a rfl).2.2.2 _

theorem FlatMember.bytes_append (m : FlatMember) (l : Bytes) : m.bytes ++ l =
    m.beforeKey ++ (0x22 :: (m.key ++ 0x22 :: (m.afterKey ++ 0x3A :: (m.beforeValue ++
      (m.value.bytes ++ (m.afterValue ++ l)))))) := by
  simp [FlatMember.bytes]

/-- Behind its key, a member is its value. -/
theorem parseMember_of_key {k : Bytes} (hm : m.WellFormed) (hk : Reads m.key k) (l : Bytes) :
    (∀ v l', parseValue (m.value.bytes ++ (m.afterValue ++ l)) = .ok (v, l') →
      parseMember (m.bytes ++ l) = .ok (k, v, skipWs l')) ∧
    ∀ e, parseValue (m.value.bytes ++ (m.afterValue ++ l)) = .error e →
      parseMember (m.bytes ++ l) = .error e := by
  rw [m.bytes_append, parseMember, skipWs_append hm.beforeKey, skipWs_cons rfl,
    parseString_of_reads hk]
  dsimp only
  rw [skipWs_append hm.afterKey, skipWs_cons rfl, List.head?_cons, if_pos rfl, List.tail_cons,
    skipWs_append hm.beforeValue, skipWs_value hm]
  exact ⟨fun v l' h => by rw [h], fun e h => by rw [h]⟩

theorem parseMember_of_reads (hm : m.WellFormed) (hkv : m.Reads kv) (hc : Follows c)
    (rest : Bytes) : parseMember (m.bytes ++ c :: rest) = .ok (kv.1, kv.2, c :: rest) := by
  obtain ⟨l, hval, hl⟩ := parseValue_of_reads hm hkv.2 hc rest
  rw [(parseMember_of_key hm hkv.1 (c :: rest)).1 _ _ hval, hl]

theorem parseMember_of_fails (hm : m.WellFormed) (h : m.Fails) (l : Bytes) :
    ∃ e, parseMember (m.bytes ++ l) = .error e := by
  rcases h with hkey | ⟨⟨k, hk⟩, x, hval, hx⟩
  · refine ⟨ascii "bad key", ?_⟩
    rw [m.bytes_append, parseMember, skipWs_append hm.beforeKey, skipWs_cons rfl,
      parseString_of_fails hkey]
  · refine ⟨ascii "bad string", (parseMember_of_key hm hk l).2 _ ?_⟩
    rw [hval, FlatValue.bytes, List.append_assoc, List.singleton_append]
    exact parseValue_str_fails hx _

/-! ### The loop -/

/-- The fields once these are assigned. -/
def setFields (fields : List (Bytes × Bytes)) (kvs : List (Bytes × Bytes)) : List (Bytes × Bytes) :=
  kvs.foldl (fun fields kv => setField kv.1 kv.2 fields) fields

/-- One turn of the loop. -/
theorem parseMembers_ok {k v : Bytes} (h : parseMember l = .ok (k, v, c :: rest)) :
    parseMembers fields l =
      if c = 0x2C then parseMembers (setField k v fields) rest
      else if c = 0x7D then { fields := setField k v fields, ok := true }
      else { fields := setField k v fields, error := ascii "expected ',' or '\x7d'" } := by
  rw [parseMembers]
  split
  next e he =>
    rw [h] at he
    cases he
  next k' v' he =>
    rw [h] at he
    cases he
  next k' v' c' l' he =>
    rw [h] at he
    cases he
    rfl

theorem parseMembers_error {e : Bytes} (h : parseMember l = .error e) :
    parseMembers fields l = { fields, error := e } := by
  rw [parseMembers]
  split
  next e' he =>
    rw [h] at he
    cases he
    rfl
  next k' v' he =>
    rw [h] at he
    cases he
  next k' v' c' l' he =>
    rw [h] at he
    cases he

theorem parseMembers_end {k v : Bytes} (h : parseMember l = .ok (k, v, [])) :
    parseMembers fields l =
      { fields := setField k v fields, error := ascii "expected ',' or '\x7d'" } := by
  rw [parseMembers]
  split
  next e he =>
    rw [h] at he
    cases he
  next k' v' he =>
    rw [h] at he
    cases he
    rfl
  next k' v' c' l' he =>
    rw [h] at he
    cases he

/-- Whitespace in front of a member is skipped by the loop itself. -/
theorem parseMembers_skipWs (fields : List (Bytes × Bytes)) (l : Bytes) :
    parseMembers fields (skipWs l) = parseMembers fields l := by
  have hskip := parseMember_skipWs l
  rcases h : parseMember l with e | ⟨k, v, _ | ⟨c, rest⟩⟩
  · rw [parseMembers_error h, parseMembers_error (hskip.trans h)]
  · rw [parseMembers_end h, parseMembers_end (hskip.trans h)]
  · rw [parseMembers_ok h, parseMembers_ok (hskip.trans h)]

theorem join_cons_cons (m m' : FlatMember) (ms : List FlatMember) (rest : Bytes) :
    FlatMember.join (m :: m' :: ms) ++ rest =
      m.bytes ++ 0x2C :: (FlatMember.join (m' :: ms) ++ rest) := by
  simp [FlatMember.join]

/-- Members that are all read are all assigned. -/
theorem parseMembers_of_reads (hms : ∀ m ∈ ms, m.WellFormed)
    (hkvs : List.Forall₂ FlatMember.Reads ms kvs) (hne : ms ≠ []) (fields : List (Bytes × Bytes))
    (rest : Bytes) :
    parseMembers fields (FlatMember.join ms ++ 0x7D :: rest) =
      { fields := setFields fields kvs, ok := true } := by
  induction hkvs generalizing fields with
  | nil => exact absurd rfl hne
  | @cons m kv ms kvs hkv hkvs ih =>
    have hm := hms m List.mem_cons_self
    have htail : ∀ m' ∈ ms, m'.WellFormed := fun m' h => hms m' (List.mem_cons_of_mem m h)
    cases hkvs with
    | nil =>
      rw [FlatMember.join, List.flatMap_nil, List.append_nil,
        parseMembers_ok (parseMember_of_reads hm hkv (.inr rfl) rest), if_neg (by decide),
        if_pos rfl]
      rfl
    | cons hkv' hkvs =>
      rw [join_cons_cons, parseMembers_ok (parseMember_of_reads hm hkv (.inl rfl) _), if_pos rfl,
        ih htail (List.cons_ne_nil _ _)]
      rfl

/-- A member that fails behind others that are read ends the loop in an error. -/
theorem parseMembers_of_fails {ms' : List FlatMember} (hms : ∀ a ∈ ms ++ m :: ms', a.WellFormed)
    (hkvs : List.Forall₂ FlatMember.Reads ms kvs) (hm : m.Fails)
    (fields : List (Bytes × Bytes)) (rest : Bytes) :
    (parseMembers fields (FlatMember.join (ms ++ m :: ms') ++ rest)).ok = false := by
  induction hkvs generalizing fields with
  | nil =>
    obtain ⟨e, he⟩ := parseMember_of_fails (hms m (by simp)) hm
      ((ms'.flatMap fun m => 0x2C :: m.bytes) ++ rest)
    rw [List.nil_append, FlatMember.join, List.append_assoc, parseMembers_error he]
  | @cons m₁ kv ms kvs hkv hkvs ih =>
    have htail : ∀ m' ∈ ms ++ m :: ms', m'.WellFormed := fun m' h =>
      hms m' (List.mem_cons_of_mem m₁ h)
    obtain ⟨m₂, ms₂, hsplit⟩ : ∃ m₂ ms₂, ms ++ m :: ms' = m₂ :: ms₂ :=
      List.exists_cons_of_ne_nil (by simp)
    have hrest := ih htail (setField kv.1 kv.2 fields)
    rw [hsplit] at hrest
    rw [List.cons_append, hsplit, join_cons_cons,
      parseMembers_ok (parseMember_of_reads (hms m₁ List.mem_cons_self) hkv (.inl rfl) _),
      if_pos rfl, hrest]

/-- An object, with the whitespace in front of it; what is behind it is not looked at. -/
theorem parseFlatJson_object {before : Bytes} (hb : ∀ b ∈ before, isWs b = true)
    (hms : ∀ m ∈ ms, m.WellFormed) (hne : ms ≠ []) (rest : Bytes) :
    parseFlatJson (before ++ 0x7B :: (FlatMember.join ms ++ rest)) =
      parseMembers [] (FlatMember.join ms ++ rest) := by
  obtain ⟨m, ms, rfl⟩ := List.exists_cons_of_ne_nil hne
  obtain ⟨l, hl⟩ : ∃ l, FlatMember.join (m :: ms) ++ rest = m.beforeKey ++ 0x22 :: l := by
    rw [FlatMember.join, List.append_assoc, m.bytes_append]
    exact ⟨_, rfl⟩
  have hskip : skipWs (FlatMember.join (m :: ms) ++ rest) = 0x22 :: l := by
    rw [hl, skipWs_append (hms m List.mem_cons_self).beforeKey, skipWs_cons rfl]
  rw [parseFlatJson, skipWs_append hb, skipWs_cons rfl]
  dsimp only
  rw [if_neg (not_not.mpr rfl), if_neg (by rw [hskip, List.head?_cons]; decide),
    parseMembers_skipWs]

end Members

/-! ### The fields of a request -/

section Fields

variable {k k' v : Bytes} {fields kvs : List (Bytes × Bytes)}

theorem lookup_setField (k v k' : Bytes) (fields : List (Bytes × Bytes)) :
    (setField k v fields).lookup k' = if k' = k then some v else fields.lookup k' := by
  induction fields with
  | nil => by_cases h : k' = k <;> simp [setField, List.lookup_cons, beq_false_of_ne, h]
  | cons kv fields ih =>
    obtain ⟨k₁, v₁⟩ := kv
    rw [setField]
    split_ifs with h₁ h₂ h₂
    · simp [h₂]
    · have h₁₂ : (k' == k₁) = false := beq_false_of_ne fun h => h₂ (h.trans h₁)
      simp [List.lookup_cons, h₁₂, beq_false_of_ne h₂]
    · have h₁₂ : (k' == k₁) = false := beq_false_of_ne fun h => h₁ (h.symm.trans h₂)
      rw [List.lookup_cons, h₁₂, ih, if_pos h₂]
    · rw [List.lookup_cons, List.lookup_cons, ih, if_neg h₂]

/-- A key that is not assigned keeps its value. -/
theorem lookup_setFields_of_not_assigned (h : k ∉ kvs.map Prod.fst) :
    (setFields fields kvs).lookup k = fields.lookup k := by
  induction kvs generalizing fields with
  | nil => rfl
  | cons kv kvs ih =>
    rw [List.map_cons, List.mem_cons, not_or] at h
    rw [setFields, List.foldl_cons]
    refine (ih h.2).trans ?_
    rw [lookup_setField, if_neg h.1]

/-- The last assignment to a key is the one that counts. -/
theorem lookup_setFields_of_notMem {pre post : List (Bytes × Bytes)} (h : k ∉ post.map Prod.fst) :
    (setFields fields (pre ++ (k, v) :: post)).lookup k = some v := by
  rw [setFields, List.foldl_append, List.foldl_cons]
  refine (lookup_setFields_of_not_assigned h).trans ?_
  rw [lookup_setField, if_pos rfl]

/-- Distinct keys are kept as they come. -/
theorem setFields_of_nodup (h : (kvs.map Prod.fst).Nodup) : setFields [] kvs = kvs := by
  have hset : ∀ (k v : Bytes) (fields : List (Bytes × Bytes)), k ∉ fields.map Prod.fst →
      setField k v fields = fields ++ [(k, v)] := by
    intro k v fields hk
    induction fields with
    | nil => rfl
    | cons kv fields ih =>
      rw [List.map_cons, List.mem_cons, not_or] at hk
      rw [setField, if_neg (Ne.symm hk.1), ih hk.2]
      rfl
  induction kvs using List.reverseRecOn with
  | nil => rfl
  | append_singleton kvs kv ih =>
    rw [List.map_append, List.nodup_append] at h
    rw [setFields, List.foldl_append, List.foldl_cons, List.foldl_nil]
    change setField kv.1 kv.2 (setFields [] kvs) = _
    rw [ih h.1, hset]
    exact fun hmem => h.2.2 _ hmem _ (List.mem_singleton_self _) rfl

end Fields

end Json

end Swpasskey
